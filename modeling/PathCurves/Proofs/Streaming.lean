/-
A path read from a source that hands out its bytes in chunks. A buffered reader gathers each line
from as many chunks as it needs (`nextLine`) and keeps what the last of them has left; `readStream`
reads a path in this way. Where the chunks end makes no difference to it: `readStream_spec` says
what it reads, in terms of all the bytes and of how the source ends, and that taking the bytes one
by one reads the same.
-/
import PathCurves.Proofs.Reading

namespace PathCurves.Polyline

open Text Reader

/-! ## Line by line, out of chunks -/

/-- The bytes before the next line feed, gathered from one chunk after the other, and the chunks
that are left after it, if a line feed comes at all. A chunk without bytes is the end of a
source. -/
def nextLine : List (List UInt8) → List UInt8 × Option (List (List UInt8))
  | [] => ([], none)
  | chunk :: chunks =>
    if chunk = [] then ([], none)
    else
      match chunk.dropWhile (· ≠ lineFeed) with
      | [] =>
        let (line, left) := nextLine chunks
        (chunk ++ line, left)
      | _ :: rest =>
        (chunk.takeWhile (· ≠ lineFeed), some (if rest = [] then chunks else rest :: chunks))

variable {chunks left : List (List UInt8)} {line : List UInt8} {number : ℕ} {ending : Ending}

/-- A chunk has no line feed, or it is cut at the first one. -/
theorem cut_chunk (chunk : List UInt8) :
    (chunk.dropWhile (· ≠ lineFeed) = [] ∧ lineFeed ∉ chunk) ∨
      ∃ rest, chunk.dropWhile (· ≠ lineFeed) = lineFeed :: rest ∧
        lineFeed ∉ chunk.takeWhile (· ≠ lineFeed) ∧
        chunk = chunk.takeWhile (· ≠ lineFeed) ++ lineFeed :: rest := by
  by_cases h : lineFeed ∈ chunk
  · obtain ⟨a, rest, rfl, ha⟩ := List.eq_append_cons_of_mem h
    have hall : ∀ b ∈ a, decide (b ≠ lineFeed) = true := by
      intro b hb
      simpa using fun heq : b = lineFeed => ha (heq ▸ hb)
    refine .inr ⟨rest, ?_, ?_, ?_⟩
    · rw [List.dropWhile_append_of_pos hall]
      simp
    · rw [List.takeWhile_append_of_pos hall]
      simpa using ha
    · rw [List.takeWhile_append_of_pos hall]
      simp
  · refine .inl ⟨List.dropWhile_eq_nil_iff.mpr fun b hb => ?_, h⟩
    simpa using fun heq : b = lineFeed => h (heq ▸ hb)

theorem nextLine_eq_some (h : nextLine chunks = (line, some left)) :
    lineFeed ∉ line ∧ chunks.flatten = line ++ lineFeed :: left.flatten := by
  induction chunks generalizing line with
  | nil => cases h
  | cons chunk chunks ih =>
    rw [nextLine] at h
    split at h
    · cases h
    · rcases cut_chunk chunk with ⟨hdrop, hchunk⟩ | ⟨rest, hdrop, hline, hcut⟩
      · rw [hdrop] at h
        obtain ⟨hfound, hleft⟩ := Prod.mk.inj h
        obtain ⟨hline, hflatten⟩ := ih (Prod.ext rfl hleft)
        subst hfound
        refine ⟨?_, ?_⟩
        · rw [List.mem_append, not_or]
          exact ⟨hchunk, hline⟩
        · rw [List.flatten_cons, hflatten, List.append_assoc]
      · rw [hdrop] at h
        cases h
        refine ⟨hline, ?_⟩
        rw [List.flatten_cons]
        nth_rewrite 1 [hcut]
        by_cases hrest : rest = []
        · simp [hrest]
        · simp [hrest]

theorem nextLine_eq_none (hne : ∀ c ∈ chunks, c ≠ []) (h : nextLine chunks = (line, none)) :
    lineFeed ∉ line ∧ chunks.flatten = line := by
  induction chunks generalizing line with
  | nil =>
    cases h
    exact ⟨List.not_mem_nil, rfl⟩
  | cons chunk chunks ih =>
    rw [nextLine, if_neg (hne chunk List.mem_cons_self)] at h
    rcases cut_chunk chunk with ⟨hdrop, hchunk⟩ | ⟨rest, hdrop, -, -⟩
    · rw [hdrop] at h
      obtain ⟨hfound, hleft⟩ := Prod.mk.inj h
      obtain ⟨hline, hflatten⟩ :=
        ih (fun c hc => hne c (List.mem_cons_of_mem _ hc)) (Prod.ext rfl hleft)
      subst hfound
      refine ⟨?_, ?_⟩
      · rw [List.mem_append, not_or]
        exact ⟨hchunk, hline⟩
      · rw [List.flatten_cons, hflatten]
    · rw [hdrop] at h
      cases h

theorem ne_nil_of_nextLine (hne : ∀ c ∈ chunks, c ≠ [])
    (h : nextLine chunks = (line, some left)) : ∀ c ∈ left, c ≠ [] := by
  induction chunks generalizing line with
  | nil => cases h
  | cons chunk chunks ih =>
    have htail : ∀ c ∈ chunks, c ≠ [] := fun c hc => hne c (List.mem_cons_of_mem _ hc)
    rw [nextLine, if_neg (hne chunk List.mem_cons_self)] at h
    rcases cut_chunk chunk with ⟨hdrop, -⟩ | ⟨rest, hdrop, -, -⟩
    · rw [hdrop] at h
      obtain ⟨-, hleft⟩ := Prod.mk.inj h
      exact ih htail (Prod.ext rfl hleft)
    · rw [hdrop] at h
      cases h
      by_cases hrest : rest = []
      · rw [if_pos hrest]
        exact htail
      · rw [if_neg hrest]
        intro c hc
        rcases List.mem_cons.mp hc with rfl | hc
        · exact hrest
        · exact htail c hc

/-! ## A path out of chunks -/

/-- The points of the unfinished line after a number of lines, where the source ends as it
should. -/
def readLast (number : ℕ) (line : List UInt8) : Ending → Except Fault (List (Point Float))
  | .broken reason => .error (.unreadable (.broken reason))
  | .complete => if line = [] then .ok [] else (readBytes (number + 1) line).map Option.toList

/-- The points of what is left of a source, after a number of lines. -/
def readOn (number : ℕ) (chunks : List (List UInt8)) (ending : Ending) :
    Except Fault (List (Point Float)) :=
  match _h : nextLine chunks with
  | (line, some left) => do
    let point ← readBytes (number + 1) (withoutEnd carriageReturn line)
    let points ← readOn (number + 1) left ending
    return point.toList ++ points
  | (line, none) => readLast number line ending
termination_by chunks.flatten.length
decreasing_by
  rw [(nextLine_eq_some _h).2, List.length_append, List.length_cons]
  omega

/-- The path that a source stands for, read line by line. -/
def readStream (source : ByteSource) : Except Fault (Polyline Float) :=
  (readOn 0 source.chunks source.ending).map Polyline.mk

theorem readOn_eq (hne : ∀ c ∈ chunks, c ≠ []) :
    readOn number chunks ending =
      (readLines number (completeLines lineFeed carriageReturn chunks.flatten) >>= fun points =>
        (readLast (number + (completeLines lineFeed carriageReturn chunks.flatten).length)
          (unfinished lineFeed chunks.flatten) ending).map (points ++ ·)) := by
  -- By the bytes that are left: a chunk can be cut in two, so their number need not decrease.
  induction hn : chunks.flatten.length using Nat.strong_induction_on generalizing chunks number with
  | _ n ih =>
    rw [readOn]
    split
    · next line left h =>
      obtain ⟨hline, hflatten⟩ := nextLine_eq_some h
      have hlt : left.flatten.length < n := by
        rw [← hn, hflatten, List.length_append, List.length_cons]
        omega
      rw [hflatten, completeLines_append_cons hline, unfinished_append_cons hline, readLines,
        List.length_cons, ih _ hlt (ne_nil_of_nextLine hne h) rfl, ← Nat.add_assoc,
        Nat.add_right_comm number]
      cases readBytes (number + 1) (withoutEnd carriageReturn line) with
      | error fault => rfl
      | ok point =>
        rw [Except.ok_bind, Except.ok_bind]
        cases readLines (number + 1) (completeLines lineFeed carriageReturn left.flatten) with
        | error fault => rfl
        | ok points =>
          rw [Except.ok_bind, Except.ok_bind]
          cases readLast _ (unfinished lineFeed left.flatten) ending with
          | error fault => rfl
          | ok last => simp [Except.map, bind, Except.bind, pure, Except.pure]
    · next line h =>
      obtain ⟨hline, hflatten⟩ := nextLine_eq_none hne h
      rw [hflatten, completeLines_of_not_mem hline, unfinished_of_not_mem hline]
      show _ = (readLast (number + 0) line ending).map ([] ++ ·)
      rw [Nat.add_zero]
      cases readLast number line ending <;> rfl

/-- What the reader that takes the bytes one by one reads, in terms of the lines of all of them. -/
theorem read_eq (chunks : List (List UInt8)) (ending : Ending) :
    read ⟨chunks, ending⟩ =
      (readLines 0 (completeLines lineFeed carriageReturn chunks.flatten) >>= fun points =>
        (readLast (completeLines lineFeed carriageReturn chunks.flatten).length
          (unfinished lineFeed chunks.flatten) ending).map (points ++ ·)).map Polyline.mk := by
  rw [read, foldlM_chunk, chunk_eq chunks.flatten {} List.not_mem_nil]
  simp only [List.reverse_nil, List.nil_append, Nat.zero_add, List.append_nil]
  generalize completeLines lineFeed carriageReturn chunks.flatten = complete
  generalize unfinished lineFeed chunks.flatten = last
  cases readLines 0 complete with
  | error fault => rfl
  | ok points =>
    show close ⟨points.reverse, complete.length, last.reverse⟩ ending =
      (Except.map (points ++ ·) (readLast complete.length last ending)).map Polyline.mk
    cases ending with
    | broken reason => rfl
    | complete =>
      simp only [readLast, close, finish_eq, List.reverse_reverse, List.reverse_eq_nil_iff]
      by_cases hlast : last = []
      · simp [hlast, Except.map]
      · rw [if_neg hlast, if_neg hlast]
        cases readBytes (complete.length + 1) last with
        | error fault => rfl
        | ok point => cases point <;> simp [Except.map]

/-- Gathered in lines or taken one by one, the bytes are read alike. -/
theorem readStream_eq (hne : ∀ c ∈ chunks, c ≠ []) :
    readStream ⟨chunks, ending⟩ = read ⟨chunks, ending⟩ := by
  rw [readStream, readOn_eq hne, read_eq, Nat.zero_add]

/-! ## What the bytes of a source stand for -/

/-- What comes of the bytes of a source and of its ending. The complete lines count first. Behind
them a source that breaks off is at fault, and what it left unfinished is dropped; one that ends
as it should has one line more if it left anything unfinished. -/
inductive ReadsAs (bytes : List UInt8) : Ending → Except Fault (Polyline Float) → Prop
  | badLine {ending before line after fault}
      (hlines : completeLines lineFeed carriageReturn bytes = before ++ line :: after)
      (hbefore : ∀ l ∈ before, ∃ point, LineMeans l point)
      (hfault : LineFault (before.length + 1) line fault) : ReadsAs bytes ending (.error fault)
  | broken {reason means}
      (hlines : List.Forall₂ LineMeans (completeLines lineFeed carriageReturn bytes) means) :
      ReadsAs bytes (.broken reason) (.error (.unreadable (.broken reason)))
  | complete {means}
      (hlines : List.Forall₂ LineMeans (completeLines lineFeed carriageReturn bytes) means)
      (hlast : unfinished lineFeed bytes = []) :
      ReadsAs bytes .complete (.ok ⟨means.reduceOption⟩)
  | lastLine {means point}
      (hlines : List.Forall₂ LineMeans (completeLines lineFeed carriageReturn bytes) means)
      (hlast : unfinished lineFeed bytes ≠ [])
      (hpoint : LineMeans (unfinished lineFeed bytes) point) :
      ReadsAs bytes .complete (.ok ⟨means.reduceOption ++ point.toList⟩)
  | badLastLine {means fault}
      (hlines : List.Forall₂ LineMeans (completeLines lineFeed carriageReturn bytes) means)
      (hlast : unfinished lineFeed bytes ≠ [])
      (hfault : LineFault ((completeLines lineFeed carriageReturn bytes).length + 1)
        (unfinished lineFeed bytes) fault) : ReadsAs bytes .complete (.error fault)

theorem readsAs_read (chunks : List (List UInt8)) (ending : Ending) :
    ReadsAs chunks.flatten ending (read ⟨chunks, ending⟩) := by
  rw [read_eq]
  cases hread : readLines 0 (completeLines lineFeed carriageReturn chunks.flatten) with
  | error fault =>
    obtain ⟨before, line, after, hlines, hbefore, hfault⟩ := readLines_eq_error_iff.mp hread
    rw [Nat.zero_add] at hfault
    exact .badLine hlines hbefore hfault
  | ok points =>
    obtain ⟨means, hlines, rfl⟩ := readLines_eq_ok_iff.mp hread
    rw [Except.ok_bind]
    cases ending with
    | broken reason => exact .broken hlines
    | complete =>
      by_cases hlast : unfinished lineFeed chunks.flatten = []
      · rw [readLast, if_pos hlast]
        simpa [Except.map] using ReadsAs.complete hlines hlast
      · rw [readLast, if_neg hlast]
        cases hbytes : readBytes _ (unfinished lineFeed chunks.flatten) with
        | error fault => exact .badLastLine hlines hlast (readBytes_eq_error_iff.mp hbytes)
        | ok point => exact .lastLine hlines hlast (readBytes_eq_ok_iff.mp hbytes)

theorem ReadsAs.read {result : Except Fault (Polyline Float)}
    (h : ReadsAs chunks.flatten ending result) : read ⟨chunks, ending⟩ = result := by
  rw [read_eq]
  cases h with
  | badLine hlines hbefore hfault =>
    rw [← Nat.zero_add (List.length _)] at hfault
    rw [readLines_eq_error_iff.mpr ⟨_, _, _, hlines, hbefore, hfault⟩]
    rfl
  | broken hlines =>
    rw [readLines_eq_ok_iff.mpr ⟨_, hlines, rfl⟩]
    rfl
  | complete hlines hlast =>
    rw [readLines_eq_ok_iff.mpr ⟨_, hlines, rfl⟩, Except.ok_bind, readLast, if_pos hlast]
    simp [Except.map]
  | lastLine hlines hlast hpoint =>
    rw [readLines_eq_ok_iff.mpr ⟨_, hlines, rfl⟩, Except.ok_bind, readLast, if_neg hlast,
      readBytes_eq_ok_iff.mpr hpoint]
    rfl
  | badLastLine hlines hlast hfault =>
    rw [readLines_eq_ok_iff.mpr ⟨_, hlines, rfl⟩, Except.ok_bind, readLast, if_neg hlast,
      readBytes_eq_error_iff.mpr hfault]
    rfl

/-- A source is read alike however its bytes are cut into chunks, and line by line as well as
byte by byte: what comes of it is what its bytes and its ending stand for. -/
theorem readStream_spec (hne : ∀ c ∈ chunks, c ≠ []) (ending : Ending) :
    readStream ⟨chunks, ending⟩ = read ⟨chunks, ending⟩ ∧
    (∀ result, readStream ⟨chunks, ending⟩ = result ↔ ReadsAs chunks.flatten ending result) ∧
    ∀ others : List (List UInt8), (∀ c ∈ others, c ≠ []) → others.flatten = chunks.flatten →
      readStream ⟨others, ending⟩ = readStream ⟨chunks, ending⟩ := by
  have hstream : readStream ⟨chunks, ending⟩ = read ⟨chunks, ending⟩ := readStream_eq hne
  refine ⟨hstream, fun result => ?_, fun others hothers hflatten => ?_⟩
  · rw [hstream]
    refine ⟨?_, ReadsAs.read⟩
    rintro rfl
    exact readsAs_read chunks ending
  · rw [hstream, readStream_eq hothers, read_eq, read_eq, hflatten]

/-- A chunk ends between the two bytes of a letter, another one between the two bytes that end the
line. The line is no point, and this comes before the break. -/
theorem readStream_spec_example :
    (∀ c ∈ [[0xC3], [0xA9, 0x0D], [0x0A, 0x31]], c ≠ ([] : List UInt8)) ∧
      readStream ⟨[[0xC3], [0xA9, 0x0D], [0x0A, 0x31]], .broken "unplugged"⟩ =
        .error (.malformedLine 1 "é") := by
  have hne : ∀ c ∈ [[0xC3], [0xA9, 0x0D], [0x0A, 0x31]], c ≠ ([] : List UInt8) := by decide
  obtain ⟨hstream, -⟩ := readStream_spec hne (.broken "unplugged")
  exact ⟨hne, hstream.trans (by decide)⟩

end PathCurves.Polyline
