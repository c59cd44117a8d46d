import Mathlib.Data.List.Basic
import Mathlib.Data.Nat.Notation

/-!
# A buffered writer over a file

A writer that collects bytes in a buffer, over a file whose writes all succeed or all fail, writing
nothing, while one line is written.

* `flushBuf`, `writeAll`: what is written goes to the file once the buffer has no room;
* `writeLine`: a line, its end, and a flush;
* `writeLine_true`: what a line that succeeds leaves;
* `keeps`, `writeLine_false`: what a line that fails leaves in the buffer;
* `writeLines`, `kept`: what many lines leave.
-/

namespace BufferedWriter

/-- How many bytes the buffer holds. -/
def capacity : ℕ := 8192

/-- A file, and the bytes that wait for it. -/
structure Sink where
  file : List UInt8
  buf : List UInt8 := []

/-- The buffer is written to the file, and whether that went well. -/
def Sink.flushBuf (ok : Bool) (s : Sink) : Sink × Bool :=
  if s.buf = [] then (s, true)
  else if ok then ({ file := s.file ++ s.buf, buf := [] }, true)
  else (s, false)

/-- Bytes are written, into the buffer if there is room, and whether that went well. -/
def Sink.writeAll (ok : Bool) (s : Sink) (bytes : List UInt8) : Sink × Bool :=
  let spare := capacity - s.buf.length
  if bytes.length < spare then ({ s with buf := s.buf ++ bytes }, true)
  else
    match if spare < bytes.length then s.flushBuf ok else (s, true) with
    | (s, false) => (s, false)
    | (s, true) =>
      if capacity ≤ bytes.length then
        if ok then ({ s with file := s.file ++ bytes }, true) else (s, false)
      else ({ s with buf := s.buf ++ bytes }, true)

/-- A line, its end, and a flush. -/
def Sink.writeLine (ok : Bool) (s : Sink) (line : List UInt8) : Sink × Bool :=
  match s.writeAll ok line with
  | (s, false) => (s, false)
  | (s, true) =>
    match s.writeAll ok [10] with
    | (s, false) => (s, false)
    | (s, true) => s.flushBuf ok

/-- What a line that fails leaves in a buffer with `p` bytes, if the line has `n`: itself with its
end, itself alone, or nothing. -/
def keeps (p n : ℕ) : Option Bool :=
  if p + n + 1 ≤ capacity then some true
  else if p + n = capacity ∧ 0 < p then some false
  else none

/-- A line, with its end or without. -/
def piece (line : List UInt8) : Option Bool → List UInt8
  | some true => line ++ [10]
  | some false => line
  | none => []

variable {s : Sink} {line bytes : List UInt8}

theorem flushBuf_true : s.flushBuf true = ({ file := s.file ++ s.buf, buf := [] }, true) := by
  by_cases h : s.buf = []
  · rw [Sink.flushBuf, if_pos h, h, List.append_nil, ← h]
  · rw [Sink.flushBuf, if_neg h]
    rfl

/-- What is written is in the file or behind it. -/
theorem writeAll_true : (s.writeAll true bytes).2 = true ∧
    (s.writeAll true bytes).1.file ++ (s.writeAll true bytes).1.buf = s.file ++ s.buf ++ bytes := by
  unfold Sink.writeAll
  dsimp only
  by_cases hroom : bytes.length < capacity - s.buf.length
  · rw [if_pos hroom]
    exact ⟨rfl, (List.append_assoc _ _ _).symm⟩
  · rw [if_neg hroom]
    by_cases hspare : capacity - s.buf.length < bytes.length
    · rw [if_pos hspare, flushBuf_true]
      dsimp only
      by_cases hlarge : capacity ≤ bytes.length
      · rw [if_pos hlarge]
        exact ⟨rfl, List.append_nil _⟩
      · rw [if_neg hlarge]
        exact ⟨rfl, rfl⟩
    · rw [if_neg hspare]
      dsimp only
      by_cases hlarge : capacity ≤ bytes.length
      · -- there is as much room as the line needs, so that the buffer is empty
        have hcap : 0 < capacity := by decide
        have hempty : s.buf = [] := List.eq_nil_of_length_eq_zero (by omega)
        rw [if_pos hlarge]
        exact ⟨rfl, by simp [hempty]⟩
      · rw [if_neg hlarge]
        exact ⟨rfl, (List.append_assoc _ _ _).symm⟩

/-- A line that succeeds is in the file, behind all that was in the buffer. -/
theorem writeLine_true (s : Sink) (line : List UInt8) :
    s.writeLine true line = ({ file := s.file ++ s.buf ++ line ++ [10], buf := [] }, true) := by
  obtain ⟨hok, hbytes⟩ := @writeAll_true s line
  unfold Sink.writeLine
  generalize s.writeAll true line = t at hok hbytes ⊢
  obtain ⟨t, done⟩ := t
  obtain rfl : done = true := hok
  obtain ⟨hok', hbytes'⟩ := @writeAll_true t [10]
  dsimp only at hbytes ⊢
  generalize t.writeAll true [10] = u at hok' hbytes' ⊢
  obtain ⟨u, done⟩ := u
  obtain rfl : done = true := hok'
  dsimp only at hbytes' ⊢
  rw [flushBuf_true, hbytes', hbytes]

theorem flushBuf_false (h : s.buf ≠ []) : s.flushBuf false = (s, false) := by
  rw [Sink.flushBuf, if_neg h]
  rfl

/-- What fits goes into the buffer. -/
theorem writeAll_of_room {ok : Bool} (hroom : s.buf.length + bytes.length ≤ capacity)
    (hsmall : bytes.length < capacity) :
    s.writeAll ok bytes = ({ s with buf := s.buf ++ bytes }, true) := by
  unfold Sink.writeAll
  dsimp only
  by_cases hlt : bytes.length < capacity - s.buf.length
  · rw [if_pos hlt]
  · rw [if_neg hlt, if_neg (by omega)]
    dsimp only
    rw [if_neg (by omega)]

/-- What does not fit behind other bytes goes nowhere. -/
theorem writeAll_of_no_room (hbuf : s.buf ≠ []) (hlen : s.buf.length ≤ capacity)
    (hfull : capacity < s.buf.length + bytes.length) : s.writeAll false bytes = (s, false) := by
  unfold Sink.writeAll
  dsimp only
  rw [if_neg (by omega), if_pos (by omega), flushBuf_false hbuf]

/-- What is as large as the buffer goes nowhere. -/
theorem writeAll_of_large (hbuf : s.buf = []) (hlarge : capacity ≤ bytes.length) :
    s.writeAll false bytes = (s, false) := by
  have hlen : s.buf.length = 0 := by rw [hbuf]; rfl
  have hflush : s.flushBuf false = (s, true) := if_pos hbuf
  unfold Sink.writeAll
  dsimp only
  rw [if_neg (by omega), hflush, ite_self]
  dsimp only
  rw [if_pos hlarge]
  rfl

/-- A line that fails leaves the file as it is. -/
theorem writeLine_false (h : s.buf.length ≤ capacity) (line : List UInt8) :
    s.writeLine false line =
      ({ s with buf := s.buf ++ piece line (keeps s.buf.length line.length) }, false) := by
  have hone : ([10] : List UInt8).length = 1 := rfl
  have hcap : 1 < capacity := by decide
  by_cases hwhole : s.buf.length + line.length + 1 ≤ capacity
  · -- the line fits into the buffer, and its end too
    have hkeeps : keeps s.buf.length line.length = some true := if_pos hwhole
    rw [Sink.writeLine, writeAll_of_room (by omega) (by omega)]
    dsimp only
    rw [writeAll_of_room (by rw [List.length_append]; omega) (by omega)]
    dsimp only
    rw [flushBuf_false (by simp), hkeeps, piece, List.append_assoc]
  · by_cases hfull : s.buf.length + line.length = capacity ∧ 0 < s.buf.length
    · -- the line fills the buffer, and its end fails
      have hkeeps : keeps s.buf.length line.length = some false := by
        rw [keeps, if_neg hwhole, if_pos hfull]
      have hbuf : s.buf ++ line ≠ [] :=
        List.append_ne_nil_of_left_ne_nil (List.ne_nil_of_length_pos hfull.2) _
      rw [Sink.writeLine, writeAll_of_room (by omega) (by omega)]
      dsimp only
      rw [writeAll_of_no_room hbuf (by rw [List.length_append]; omega)
        (by rw [List.length_append]; omega), hkeeps, piece]
    · -- the line goes nowhere
      have hkeeps : keeps s.buf.length line.length = none := by
        rw [keeps, if_neg hwhole, if_neg hfull]
      have hline : s.writeAll false line = (s, false) := by
        by_cases hempty : s.buf = []
        · have hlen : s.buf.length = 0 := by rw [hempty]; rfl
          exact writeAll_of_large hempty (by omega)
        · have hpos : 0 < s.buf.length := List.length_pos_of_ne_nil hempty
          exact writeAll_of_no_room hempty h (by omega)
      rw [Sink.writeLine, hline, hkeeps, piece, List.append_nil]

/-! ### Many lines -/

/-- Lines, each of which succeeds or fails. -/
def Sink.writeLines (s : Sink) (lines : List (Bool × List UInt8)) : Sink :=
  lines.foldl (fun s l => (s.writeLine l.1 l.2).1) s

/-- The lines that reach the file or the buffer, with their ends or without, if the buffer has `p`
bytes. -/
def kept : ℕ → List (Bool × List UInt8) → List (Option Bool × List UInt8)
  | _, [] => []
  | _, (true, line) :: lines => (some true, line) :: kept 0 lines
  | p, (false, line) :: lines =>
    (keeps p line.length, line) ::
      kept (p + (piece line (keeps p line.length)).length) lines

/-- The bytes of lines that were kept. -/
def pieces (ls : List (Option Bool × List UInt8)) : List UInt8 := ls.flatMap fun l => piece l.2 l.1

/-- Every line that fails is kept with its end. -/
def AllWhole : ℕ → List (Bool × List UInt8) → Prop
  | _, [] => True
  | _, (true, _) :: lines => AllWhole 0 lines
  | p, (false, line) :: lines =>
    p + line.length + 1 ≤ capacity ∧ AllWhole (p + line.length + 1) lines

theorem length_piece_keeps (p : ℕ) (line : List UInt8) (hp : p ≤ capacity) :
    p + (piece line (keeps p line.length)).length ≤ capacity := by
  unfold keeps
  split_ifs with hwhole hfull
  · simpa [piece, Nat.add_assoc] using hwhole
  · simpa [piece] using Nat.le_of_eq hfull.1
  · simpa [piece] using hp

/-- All that was kept is in the file or behind it. -/
theorem writeLines_append (h : s.buf.length ≤ capacity) (lines : List (Bool × List UInt8)) :
    (s.writeLines lines).file ++ (s.writeLines lines).buf =
      s.file ++ s.buf ++ pieces (kept s.buf.length lines) ∧
    (s.writeLines lines).buf.length ≤ capacity := by
  induction lines generalizing s with
  | nil => simpa [Sink.writeLines, kept, pieces] using h
  | cons l lines ih =>
    obtain ⟨ok, line⟩ := l
    cases ok with
    | true =>
      have hstep : s.writeLines ((true, line) :: lines) =
          Sink.writeLines { file := s.file ++ s.buf ++ line ++ [10], buf := [] } lines := by
        rw [Sink.writeLines, List.foldl_cons, writeLine_true]
        rfl
      obtain ⟨hbytes, hlen⟩ := ih (s := { file := s.file ++ s.buf ++ line ++ [10], buf := [] })
        (Nat.zero_le _)
      rw [hstep]
      refine ⟨?_, hlen⟩
      rw [hbytes]
      simp [kept, pieces, piece]
    | false =>
      have hroom := length_piece_keeps s.buf.length line h
      have hstep : s.writeLines ((false, line) :: lines) = Sink.writeLines
          { s with buf := s.buf ++ piece line (keeps s.buf.length line.length) } lines := by
        rw [Sink.writeLines, List.foldl_cons, writeLine_false h]
        rfl
      obtain ⟨hbytes, hlen⟩ := ih
        (s := { s with buf := s.buf ++ piece line (keeps s.buf.length line.length) })
        (by simpa using hroom)
      rw [hstep]
      refine ⟨?_, hlen⟩
      rw [hbytes]
      simp [kept, pieces]

theorem writeLines_writeLines (s : Sink) (lines lines' : List (Bool × List UInt8)) :
    s.writeLines (lines ++ lines') = (s.writeLines lines).writeLines lines' :=
  List.foldl_append

theorem writeLines_concat (s : Sink) (lines : List (Bool × List UInt8)) (l : Bool × List UInt8) :
    s.writeLines (lines ++ [l]) = ((s.writeLines lines).writeLine l.1 l.2).1 := by
  rw [writeLines_writeLines]
  rfl

theorem file_writeLines_of_false (h : s.buf.length ≤ capacity) {lines : List (Bool × List UInt8)}
    (hfail : ∀ l ∈ lines, l.1 = false) : (s.writeLines lines).file = s.file := by
  induction lines generalizing s with
  | nil => rfl
  | cons l lines ih =>
    obtain ⟨ok, line⟩ := l
    obtain rfl : ok = false := hfail _ List.mem_cons_self
    rw [Sink.writeLines, List.foldl_cons, writeLine_false h]
    exact ih (by simpa using length_piece_keeps s.buf.length line h)
      fun l hl => hfail l (List.mem_cons_of_mem _ hl)

theorem kept_whole_iff (p : ℕ) (lines : List (Bool × List UInt8)) :
    (∀ l ∈ kept p lines, l.1 = some true) ↔ AllWhole p lines := by
  induction lines generalizing p with
  | nil => simp [kept, AllWhole]
  | cons l lines ih =>
    obtain ⟨ok, line⟩ := l
    cases ok with
    | true =>
      rw [kept, List.forall_mem_cons, AllWhole, ih]
      exact and_iff_right rfl
    | false =>
      rw [kept, List.forall_mem_cons, AllWhole, ih]
      by_cases hwhole : p + line.length + 1 ≤ capacity
      · have hkeeps : keeps p line.length = some true := if_pos hwhole
        have hlen : p + (piece line (some true)).length = p + line.length + 1 := by
          rw [piece, List.length_append]
          rfl
        rw [hkeeps, hlen]
        exact and_congr_left fun _ => iff_of_true rfl hwhole
      · have hkeeps : keeps p line.length ≠ some true := by
          rw [keeps, if_neg hwhole]
          split_ifs <;> nofun
        exact iff_of_false (fun h => hkeeps h.1) fun h => hwhole h.1

theorem kept_snd (p : ℕ) (lines : List (Bool × List UInt8)) :
    (kept p lines).map Prod.snd = lines.map Prod.snd := by
  induction lines generalizing p with
  | nil => rfl
  | cons l lines ih =>
    obtain ⟨ok, line⟩ := l
    cases ok <;> simp [kept, ih]

theorem length_kept (p : ℕ) (lines : List (Bool × List UInt8)) :
    (kept p lines).length = lines.length := by
  rw [← List.length_map (f := Prod.snd), kept_snd, List.length_map]

/-- Lines of which the last succeeds end with a line feed. -/
theorem pieces_kept_concat (p : ℕ) (lines : List (Bool × List UInt8)) (line : List UInt8) :
    ∃ bytes, pieces (kept p (lines ++ [(true, line)])) = bytes ++ [10] := by
  induction lines generalizing p with
  | nil => exact ⟨line, by simp [kept, pieces, piece]⟩
  | cons l lines ih =>
    obtain ⟨ok, first⟩ := l
    cases ok with
    | true =>
      obtain ⟨bytes, hbytes⟩ := ih 0
      refine ⟨first ++ [10] ++ bytes, ?_⟩
      rw [List.append_assoc, ← hbytes]
      rfl
    | false =>
      obtain ⟨bytes, hbytes⟩ := ih (p + (piece first (keeps p first.length)).length)
      refine ⟨piece first (keeps p first.length) ++ bytes, ?_⟩
      rw [List.append_assoc, ← hbytes]
      rfl

/-- As many line feeds as lines were kept whole. -/
theorem count_pieces {ps : List (Option Bool × List UInt8)} (h : ∀ p ∈ ps, (10 : UInt8) ∉ p.2) :
    (pieces ps).count 10 = ps.countP fun p => p.1 = some true := by
  induction ps with
  | nil => rfl
  | cons p ps ih =>
    obtain ⟨tag, line⟩ := p
    have hline : (10 : UInt8) ∉ line := h _ List.mem_cons_self
    have hpiece : (piece line tag).count 10 = if tag = some true then 1 else 0 := by
      rcases tag with _ | whole
      · rfl
      · cases whole <;> simp [piece, List.count_eq_zero_of_not_mem hline]
    have hcons : pieces ((tag, line) :: ps) = piece line tag ++ pieces ps := List.flatMap_cons
    rw [hcons, List.count_append, ih fun p hp => h p (List.mem_cons_of_mem _ hp), hpiece,
      List.countP_cons, Nat.add_comm]
    simp

theorem pieces_of_allWhole {p : ℕ} {lines : List (Bool × List UInt8)} (h : AllWhole p lines) :
    pieces (kept p lines) = (lines.map Prod.snd).flatMap fun line => line ++ [10] := by
  have hwhole := (kept_whole_iff p lines).2 h
  rw [← kept_snd p lines, pieces, List.flatMap_map]
  refine List.flatMap_congr fun l hl => ?_
  rw [hwhole l hl]
  rfl

end BufferedWriter
