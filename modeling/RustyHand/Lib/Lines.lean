import Mathlib.Data.List.Basic
import Mathlib.Data.List.Count
import Mathlib.Data.List.DropRight
import Mathlib.Data.Nat.Notation

/-!
# Lines

* `Lines`: bytes cut at the line feeds;
* `LineEnds`: a text as its lines, each with the characters that end it.
-/

/-!
## Lines of bytes

Bytes cut at the line feeds: the lines that are complete, and what is left behind the last of them.

* `cut`: the complete lines and the rest, with bytes that were read before;
* `cut_append`: what is appended goes on with the rest;
* `length_cut`: there are as many lines as line feeds.
-/

namespace Lines

/-- The complete lines of some bytes and the rest, behind bytes without a line feed. -/
def cut : List UInt8 → List UInt8 → List (List UInt8) × List UInt8
  | before, [] => ([], before)
  | before, b :: bytes =>
    if b = 10 then (before :: (cut [] bytes).1, (cut [] bytes).2) else cut (before ++ [b]) bytes

theorem cut_cons (before : List UInt8) (b : UInt8) (bytes : List UInt8) : cut before (b :: bytes) =
    if b = 10 then (before :: (cut [] bytes).1, (cut [] bytes).2)
    else cut (before ++ [b]) bytes := rfl

variable {before bytes line : List UInt8}

theorem cut_append (before a b : List UInt8) :
    cut before (a ++ b) =
      ((cut before a).1 ++ (cut (cut before a).2 b).1, (cut (cut before a).2 b).2) := by
  induction a generalizing before with
  | nil => rfl
  | cons x a ih =>
    rw [List.cons_append, cut_cons, cut_cons]
    split_ifs with hx
    · rw [ih]
      rfl
    · exact ih _

/-- Bytes without a line feed go to the rest. -/
theorem cut_of_not_mem (h : (10 : UInt8) ∉ line) : cut before line = ([], before ++ line) := by
  induction line generalizing before with
  | nil => exact congrArg _ (List.append_nil before).symm
  | cons b line ih =>
    rw [List.mem_cons, not_or] at h
    rw [cut_cons, if_neg (Ne.symm h.1), ih h.2, List.append_assoc]
    rfl

theorem cut_line (h : (10 : UInt8) ∉ line) (bytes : List UInt8) :
    cut before (line ++ [10] ++ bytes) =
      ((before ++ line) :: (cut [] bytes).1, (cut [] bytes).2) := by
  rw [List.append_assoc, cut_append, cut_of_not_mem h]
  rfl

theorem length_cut (before bytes : List UInt8) : (cut before bytes).1.length = bytes.count 10 := by
  induction bytes generalizing before with
  | nil => rfl
  | cons b bytes ih =>
    rw [cut_cons]
    split_ifs with hb
    · rw [hb, List.length_cons, ih, List.count_cons_self]
    · rw [ih, List.count_cons_of_ne hb]

/-- Nothing is left behind a line feed at the end. -/
theorem rest_of_concat (before bytes : List UInt8) : (cut before (bytes ++ [10])).2 = [] := by
  rw [cut_append]
  rfl

end Lines

/-!
## Lines and their ends

A text as its lines, each with the characters that end it: a line feed, a carriage return and a line
feed, or none, at the end of the text.

* `splitLines`, `joinLines`: the lines of a text, and the text of some lines;
* `joinLines_splitLines`: nothing is lost;
* `eq_of_joinLines`: the ends can be read off the text, if the texts of the lines are known;
* `trailingRun`: the ends that a text ends with, behind its last character of another kind.
-/

namespace LineEnds

/-- What ends a line. -/
inductive End
  | none
  | lf
  | crlf
  deriving DecidableEq

namespace End

/-- The characters of an end. -/
def chars : End → List Char
  | none => []
  | lf => ['\n']
  | crlf => ['\r', '\n']

end End

/-- A line. -/
structure Line where
  text : List Char
  stop : End
  deriving DecidableEq

namespace Line

/-- The line with its end. -/
def chars (l : Line) : List Char := l.text ++ l.stop.chars

end Line

/-- A character in front of some lines. -/
def push (c : Char) : List Line → List Line
  | [] => [⟨[c], .none⟩]
  | l :: ls =>
    if c = '\r' ∧ l = ⟨[], .lf⟩ then ⟨[], .crlf⟩ :: ls else ⟨c :: l.text, l.stop⟩ :: ls

/-- The lines of a text. -/
def splitLines : List Char → List Line
  | [] => []
  | c :: cs => if c = '\n' then ⟨[], .lf⟩ :: splitLines cs else push c (splitLines cs)

/-- The text of some lines. -/
def joinLines (ls : List Line) : List Char := ls.flatMap Line.chars

/-- All lines have an end, but perhaps the last one. -/
def Ended (ls : List Line) : Prop := ∀ l ∈ ls.dropLast, l.stop ≠ .none

variable {cs : List Char} {ls ls' : List Line} {l l' : Line} {c : Char}

@[simp] theorem joinLines_nil : joinLines [] = [] := rfl

@[simp] theorem joinLines_cons (l : Line) (ls : List Line) :
    joinLines (l :: ls) = l.chars ++ joinLines ls := rfl

theorem joinLines_append (ls ls' : List Line) :
    joinLines (ls ++ ls') = joinLines ls ++ joinLines ls' := List.flatMap_append

/-! ### The lines of a text -/

theorem joinLines_push (c : Char) (ls : List Line) : joinLines (push c ls) = c :: joinLines ls := by
  cases ls with
  | nil => rfl
  | cons l ls =>
    rw [push]
    split_ifs with h
    · obtain ⟨rfl, rfl⟩ := h
      rfl
    · rfl

theorem joinLines_splitLines (cs : List Char) : joinLines (splitLines cs) = cs := by
  induction cs with
  | nil => rfl
  | cons c cs ih =>
    rw [splitLines]
    split_ifs with h
    · rw [h, joinLines_cons, ih]
      rfl
    · rw [joinLines_push, ih]

/-- The lines behind a character in front of them, as far as their ends matter. -/
theorem push_cons_cases (c : Char) (l : Line) (ls : List Line) :
    ∃ l', push c (l :: ls) = l' :: ls ∧ (l'.stop = .none ↔ l.stop = .none) ∧
      (l' = ⟨[], .crlf⟩ ∨ l' = ⟨c :: l.text, l.stop⟩) := by
  rw [push]
  split_ifs with h
  · obtain ⟨rfl, rfl⟩ := h
    exact ⟨_, rfl, by simp, .inl rfl⟩
  · exact ⟨_, rfl, Iff.rfl, .inr rfl⟩

/-- What holds of the lines without a text, and of a line with one character more, holds of all
lines. -/
theorem forall_splitLines {P : Line → Prop} (hlf : P ⟨[], .lf⟩) (hcrlf : P ⟨[], .crlf⟩)
    (hlast : ∀ c ≠ '\n', P ⟨[c], .none⟩)
    (hpush : ∀ c ≠ '\n', ∀ l, P l → P ⟨c :: l.text, l.stop⟩) (cs : List Char) :
    ∀ l ∈ splitLines cs, P l := by
  induction cs with
  | nil => exact List.forall_mem_nil _
  | cons c cs ih =>
    rw [splitLines]
    split_ifs with h
    · exact List.forall_mem_cons.2 ⟨hlf, ih⟩
    · cases hcs : splitLines cs with
      | nil => exact List.forall_mem_singleton.2 (hlast c h)
      | cons l ls =>
        rw [hcs] at ih
        obtain ⟨hl, hls⟩ := List.forall_mem_cons.1 ih
        obtain ⟨l', hl', -, rfl | rfl⟩ := push_cons_cases c l ls
        · rw [hl']
          exact List.forall_mem_cons.2 ⟨hcrlf, hls⟩
        · rw [hl']
          exact List.forall_mem_cons.2 ⟨hpush c h l hl, hls⟩

theorem not_mem_text (cs : List Char) : ∀ l ∈ splitLines cs, '\n' ∉ l.text := by
  refine forall_splitLines List.not_mem_nil List.not_mem_nil (fun c hc => ?_)
    (fun c hc l hl => ?_) cs
  · simpa using hc.symm
  · exact fun hmem => (List.mem_cons.1 hmem).elim hc.symm hl

/-- No line is empty, with its end. -/
theorem chars_ne_nil (cs : List Char) : ∀ l ∈ splitLines cs, l.chars ≠ [] :=
  forall_splitLines (List.cons_ne_nil _ _) (List.cons_ne_nil _ _)
    (fun _ _ => List.cons_ne_nil _ _) (fun _ _ _ _ => List.cons_ne_nil _ _) cs

theorem ended_cons (h : Ended ls) (hl : ls = [] ∨ l.stop ≠ .none) : Ended (l :: ls) := by
  cases ls with
  | nil => exact List.forall_mem_nil _
  | cons l' ls =>
    have hstop := hl.resolve_left (List.cons_ne_nil _ _)
    exact List.forall_mem_cons.2 ⟨hstop, h⟩

theorem Ended.tail (h : Ended (l :: ls)) : Ended ls := by
  cases ls with
  | nil => exact List.forall_mem_nil _
  | cons l' ls => exact (List.forall_mem_cons.1 h).2

theorem Ended.head (h : Ended (l :: l' :: ls)) : l.stop ≠ .none := (List.forall_mem_cons.1 h).1

theorem ended_splitLines (cs : List Char) : Ended (splitLines cs) := by
  induction cs with
  | nil => exact List.forall_mem_nil _
  | cons c cs ih =>
    rw [splitLines]
    split_ifs with h
    · exact ended_cons ih (.inr (by simp))
    · cases hcs : splitLines cs with
      | nil => exact List.forall_mem_nil _
      | cons l ls =>
        rw [hcs] at ih
        obtain ⟨l', hpush, hstop, -⟩ := push_cons_cases c l ls
        rw [hpush]
        refine ended_cons ih.tail ?_
        cases ls with
        | nil => exact .inl rfl
        | cons => exact .inr fun hnone => ih.head (hstop.1 hnone)

/-- The last line has an end just if the text ends with a line feed. -/
theorem getLast_stop (h : (splitLines cs).getLast? = some l) :
    l.stop ≠ .none ↔ cs.getLast? = some '\n' := by
  obtain ⟨ls, hls⟩ := List.getLast?_eq_some_iff.1 h
  have hmem : l ∈ splitLines cs := List.mem_of_getLast? h
  have hjoin := joinLines_splitLines cs
  rw [hls, joinLines_append, joinLines_cons, joinLines_nil, List.append_nil] at hjoin
  have hlast : cs.getLast? = l.chars.getLast? := by
    rw [← hjoin, List.getLast?_append_of_ne_nil _ (chars_ne_nil cs l hmem)]
  rw [hlast, Line.chars]
  cases hstop : l.stop with
  | none =>
    simp only [End.chars, List.append_nil, ne_eq, not_true_eq_false, false_iff]
    exact fun hn => not_mem_text cs l hmem (List.mem_of_getLast? hn)
  | lf => simp [End.chars]
  | crlf => simp [End.chars]

/-! ### Ends that are read off -/

/-- The ends of lines are determined by their texts and by the whole text. -/
theorem eq_of_joinLines (htexts : ls.map Line.text = ls'.map Line.text) (h : Ended ls)
    (h' : Ended ls') (hjoin : joinLines ls = joinLines ls') : ls = ls' := by
  induction ls generalizing ls' with
  | nil =>
    cases ls' with
    | nil => rfl
    | cons => cases htexts
  | cons l ls ih =>
    cases ls' with
    | nil => cases htexts
    | cons l' ls' =>
      obtain ⟨text, stop⟩ := l
      obtain ⟨text', stop'⟩ := l'
      obtain ⟨htext, hrest⟩ := List.cons.inj htexts
      obtain rfl : text = text' := htext
      simp only [joinLines_cons, Line.chars, List.append_assoc, List.append_cancel_left_eq] at hjoin
      have hlen := congrArg List.length hrest
      rw [List.length_map, List.length_map] at hlen
      cases ls with
      | nil =>
        obtain rfl : ls' = [] := List.length_eq_zero_iff.1 hlen.symm
        cases stop <;> cases stop' <;> first | rfl | simp [End.chars] at hjoin
      | cons l ls =>
        cases ls' with
        | nil => cases hrest
        | cons l' ls' =>
          have hstop := h.head
          have hstop' := h'.head
          have hsame : stop = stop' := by
            cases stop <;> cases stop' <;> first | rfl | simp [End.chars] at hjoin hstop hstop'
          subst hsame
          rw [ih hrest h.tail h'.tail (List.append_cancel_left hjoin)]

/-! ### The end of a text -/

/-- The line ends at the end of a text. -/
def trailingRun (cs : List Char) : List Char := cs.rtakeWhile fun c => c = '\r' ∨ c = '\n'

/-- Behind a character of another kind, the run is that of the rest. -/
theorem trailingRun_append {a b : List Char} (h : ∃ c ∈ b, c ≠ '\r' ∧ c ≠ '\n') :
    trailingRun (a ++ b) = trailingRun b := by
  obtain ⟨c, hc, hr, hn⟩ := h
  obtain ⟨before, after, rfl⟩ := List.append_of_mem hc
  have hrun : ∀ front : List Char, trailingRun (front ++ c :: after) = trailingRun after := by
    intro front
    induction after using List.reverseRecOn with
    | nil => exact List.rtakeWhile_concat_neg _ _ _ (by simp [hr, hn])
    | append_singleton after d ih =>
      rw [← List.cons_append, ← List.append_assoc, trailingRun, trailingRun, List.rtakeWhile_concat,
        List.rtakeWhile_concat, ← trailingRun, ih (by simp), ← trailingRun]
  rw [← List.append_assoc, hrun, hrun]

end LineEnds
