import Mathlib.Data.List.DropRight
import RustyHand.Runtime.AuditFile

/-!
# Which appended entries are replayed

Runs of `record` on a file of any content, and what `open` makes of the file afterwards.

* `lastSaved`: the attempts up to the last one that was appended;
* `Continues`: a file that the first entry can go on with;
* `Safe`: the file can be gone on with, and attempts that fail before one that does not are kept
  whole in the buffer;
* `durable_iff`: the appended entries are replayed if and only if the run was safe.
-/

namespace RustyHand
namespace Audit

open BufferedWriter Framing HashChain Lines

/-- The attempts up to the last one that was appended. -/
def lastSaved (as : List (Bool × AuditEntry)) : List (Bool × AuditEntry) :=
  as.rdropWhile fun a => !a.1

/-- The complete lines of a file do not break the chain, the line behind them adds no entry, and
with the line of `e` appended it is read as `e`. -/
structure Continues (S : Serde) (sha256 : List UInt8 → Str) (content : List UInt8)
    (e : AuditEntry) : Prop where
  unbroken : breaks sha256 {} (S.completeLines content) = false
  rest : (openFile S sha256 content).entries = (replay sha256 {} (S.completeLines content)).entries
  first : S.parseLine (stripCr ((cut [] content).2 ++ S.line e)) = some e

/-- If an attempt is appended, the file can be gone on with the first of them, and those that fail
before are kept whole. -/
def Safe (S : Serde) (sha256 : List UInt8 → Str) (content : List UInt8)
    (rs : List (Bool × Request)) : Prop :=
  let as := lastSaved (attempts sha256 (openFile S sha256 content) rs)
  (∀ a ∈ as.head?, Continues S sha256 content a.2) ∧ AllWhole 0 (S.linesOf as)

variable {S : Serde} {sha256 : List UInt8 → Str} {content : List UInt8} {rs : List (Bool × Request)}
  {as : List (Bool × AuditEntry)}

/-! ### Lines of entries -/

theorem newline_not_mem_line (S : Serde) (e : AuditEntry) : (10 : UInt8) ∉ S.line e :=
  newline_not_mem_utf8 (S.newline e)

/-- The line of an entry does not end with a carriage return. -/
theorem stripCr_line (before : List UInt8) (e : AuditEntry) :
    stripCr (before ++ S.line e) = before ++ S.line e := by
  obtain ⟨cs, hcs⟩ := S.brace e
  have hline : ∃ bytes, S.line e = bytes ++ [125] := by
    refine ⟨cs.flatMap String.utf8EncodeChar, ?_⟩
    rw [Serde.line, utf8, hcs, List.flatMap_append]
    rfl
  obtain ⟨bytes, hbytes⟩ := hline
  rw [stripCr, hbytes, ← List.append_assoc, List.getLast?_concat, if_neg (by decide)]

theorem isBlank_line (e : AuditEntry) (s : String) :
    Text.isBlank (S.toString e ++ s) = false := by
  obtain ⟨cs, hcs⟩ := S.brace e
  have hbrace : ['}'].all Text.isWhitespace = false := by decide
  rw [Text.isBlank, String.toList_append, hcs, List.all_append, List.all_append, hbrace,
    Bool.and_false, Bool.false_and]

/-- The texts of some entries, without an end between them. -/
def Serde.joinedText (S : Serde) : List AuditEntry → String
  | [] => ""
  | e :: l => S.toString e ++ S.joinedText l

/-- The lines of some entries, without an end between them. -/
def Serde.joined (S : Serde) (l : List AuditEntry) : List UInt8 := utf8 (S.joinedText l)

theorem joined_append (l : List AuditEntry) (e : AuditEntry) :
    S.joined (l ++ [e]) = S.joined l ++ S.line e := by
  induction l with
  | nil =>
    rw [List.nil_append, Serde.joined, Serde.joinedText, Serde.joinedText, String.append_empty]
    rfl
  | cons first l ih =>
    have hcons : ∀ m, S.joined (first :: m) = S.line first ++ S.joined m := fun m =>
      utf8_append _ _
    rw [List.cons_append, hcons, hcons, ih, List.append_assoc]

theorem parseLine_utf8 (text : String) (h : Text.isBlank text = false) :
    S.parseLine (utf8 text) = S.fromStr text := by
  rw [Serde.parseLine, fromUtf8_utf8, Option.bind_some, h]
  rfl

theorem parseLine_line (e : AuditEntry) : S.parseLine (S.line e) = some e := by
  have hblank := isBlank_line (S := S) e ""
  rw [String.append_empty] at hblank
  rw [Serde.line, parseLine_utf8 _ hblank, S.fromStr_toString]

theorem stripCr_joined (l : List AuditEntry) : stripCr (S.joined l) = S.joined l := by
  rcases List.eq_nil_or_concat' l with rfl | ⟨l', e, rfl⟩
  · rfl
  · rw [joined_append, stripCr_line]

/-- Lines without an end between them are read as one of them or not at all. -/
theorem mem_of_parseLine_joined {l : List AuditEntry} {e : AuditEntry}
    (he : S.parseLine (S.joined l) = some e) : e ∈ l := by
  cases l with
  | nil => cases he
  | cons first l =>
    cases l with
    | nil =>
      have hjoined : S.joined [first] = S.line first := by
        rw [Serde.joined, Serde.joinedText, Serde.joinedText, String.append_empty]
        rfl
      rw [hjoined, parseLine_line] at he
      rw [Option.some.inj he]
      exact List.mem_singleton_self _
    | cons second l =>
      -- what follows the first entry is not blank
      rw [Serde.joined, Serde.joinedText, parseLine_utf8 _ (isBlank_line _ _),
        S.trailing _ (S.joinedText (second :: l)) (isBlank_line _ _)] at he
      cases he

/-- Lines of entries that were kept with their ends or without, cut again: each is made of lines of
these entries. -/
theorem cut_pieces {l : List AuditEntry} {ps : List (Option Bool × List UInt8)}
    (hps : ∀ p ∈ ps, ∃ e ∈ l, p.2 = S.line e) {g : List AuditEntry} (hg : ∀ e ∈ g, e ∈ l) :
    ∀ line ∈ (cut (S.joined g) (pieces ps)).1 ++ [(cut (S.joined g) (pieces ps)).2],
      ∃ g', (∀ e ∈ g', e ∈ l) ∧ line = S.joined g' := by
  induction ps generalizing g with
  | nil =>
    intro line hline
    exact ⟨g, hg, List.mem_singleton.1 hline⟩
  | cons p ps ih =>
    have hrest : ∀ p ∈ ps, ∃ e ∈ l, p.2 = S.line e := fun q hq => hps q (List.mem_cons_of_mem _ hq)
    obtain ⟨e, he, hline⟩ := hps p List.mem_cons_self
    obtain ⟨tag, bytes⟩ := p
    obtain rfl : bytes = S.line e := hline
    have hge : ∀ x ∈ g ++ [e], x ∈ l := by
      intro x hx
      rcases List.mem_append.1 hx with hx | hx
      · exact hg x hx
      · rw [List.mem_singleton.1 hx]
        exact he
    have hpieces : pieces ((tag, S.line e) :: ps) = piece (S.line e) tag ++ pieces ps :=
      List.flatMap_cons
    rw [hpieces]
    cases tag with
    | none => exact ih hrest hg
    | some whole =>
      cases whole with
      | true =>
        rw [piece, cut_line (newline_not_mem_line S e), ← joined_append]
        intro line hline
        rcases List.mem_cons.1 hline with rfl | hline
        · exact ⟨g ++ [e], hge, rfl⟩
        · exact ih (g := []) hrest (fun e he => absurd he List.not_mem_nil) line hline
      | false =>
        rw [piece, cut_append, cut_of_not_mem (newline_not_mem_line S e), ← joined_append]
        exact ih hrest hge

theorem kept_line {p : ℕ} (as : List (Bool × AuditEntry)) :
    ∀ q ∈ kept p (S.linesOf as), ∃ e ∈ as.map Prod.snd, q.2 = S.line e := by
  intro q hq
  have hmem : q.2 ∈ (S.linesOf as).map Prod.snd := by
    rw [← kept_snd p]
    exact List.mem_map_of_mem hq
  rw [Serde.linesOf, List.map_map] at hmem
  obtain ⟨a, ha, hline⟩ := List.mem_map.1 hmem
  exact ⟨a.2, List.mem_map_of_mem ha, hline.symm⟩

/-- What is read of lines that were kept are entries of these lines. -/
theorem mem_of_kept {as : List (Bool × AuditEntry)} {e : AuditEntry}
    (he : some e ∈ S.completeLines (pieces (kept 0 (S.linesOf as))) ++
      S.lastLine (pieces (kept 0 (S.linesOf as)))) : e ∈ as.map Prod.snd := by
  have hcut := cut_pieces (g := []) (kept_line (p := 0) (S := S) as) nofun
  have hnil : S.joined [] = [] := rfl
  rw [hnil] at hcut
  rcases List.mem_append.1 he with he | he
  · obtain ⟨line, hline, hparse⟩ := List.mem_map.1 he
    obtain ⟨g, hg, rfl⟩ := hcut line (List.mem_append_left _ hline)
    rw [stripCr_joined] at hparse
    exact hg e (mem_of_parseLine_joined hparse)
  · unfold Serde.lastLine at he
    split_ifs at he with hrest
    · cases he
    · obtain ⟨g, hg, hline⟩ := hcut _ (List.mem_append_right _ (List.mem_singleton_self _))
      rw [hline] at he
      exact hg e (mem_of_parseLine_joined (List.mem_singleton.1 he).symm)

/-! ### The file after a run -/

/-- The attempts after the last one that was appended. -/
def unsaved (as : List (Bool × AuditEntry)) : List (Bool × AuditEntry) :=
  as.rtakeWhile fun a => !a.1

theorem lastSaved_append_unsaved (as : List (Bool × AuditEntry)) :
    lastSaved as ++ unsaved as = as := List.rdropWhile_append_rtakeWhile

theorem lastSaved_eq_concat (h : lastSaved as ≠ []) :
    ∃ l e, lastSaved as = l ++ [(true, e)] := by
  have hlast := List.rdropWhile_last_not (fun a : Bool × AuditEntry => !a.1) as h
  obtain ⟨l, ⟨ok, e⟩, hl⟩ := (List.eq_nil_or_concat' (lastSaved as)).resolve_left h
  have hok : ok = true := by
    have hget : (lastSaved as).getLast h = (ok, e) := by simp [hl]
    have hnot : ¬ (!((lastSaved as).getLast h).1) = true := hlast
    rw [hget] at hnot
    simpa using hnot
  exact ⟨l, e, by rw [hl, hok]⟩

theorem mem_unsaved {a : Bool × AuditEntry} (h : a ∈ unsaved as) : a.1 = false := by
  simpa using List.mem_rtakeWhile_imp h

/-- The appended entries are among the attempts up to the last of them. -/
theorem appended_eq (as : List (Bool × AuditEntry)) : appended as = appended (lastSaved as) := by
  have hunsaved : (unsaved as).filter (fun a => a.1) = [] := by
    rw [List.filter_eq_nil_iff]
    intro a ha
    simp [mem_unsaved ha]
  conv_lhs => rw [← lastSaved_append_unsaved as]
  rw [appended, List.filter_append, hunsaved, List.append_nil]
  rfl

/-- The lines of the attempts up to the last one that was appended are in the file. -/
theorem writeLines_lastSaved (content : List UInt8) (as : List (Bool × AuditEntry)) :
    Sink.writeLines { file := content } (S.linesOf (lastSaved as)) =
      { file := content ++ pieces (kept 0 (S.linesOf (lastSaved as))), buf := [] } := by
  obtain ⟨hbytes, -⟩ := writeLines_append (s := { file := content }) (Nat.zero_le _)
    (S.linesOf (lastSaved as))
  have hbuf : (Sink.writeLines { file := content } (S.linesOf (lastSaved as))).buf = [] := by
    by_cases h : lastSaved as = []
    · rw [h]
      rfl
    · obtain ⟨l, e, hl⟩ := lastSaved_eq_concat h
      rw [hl, Serde.linesOf, List.map_append, List.map_singleton, writeLines_concat, writeLine_true]
  generalize Sink.writeLines { file := content } (S.linesOf (lastSaved as)) = s at hbytes hbuf ⊢
  obtain ⟨file, buf⟩ := s
  obtain rfl : buf = [] := hbuf
  rw [List.append_nil] at hbytes
  simpa using hbytes

/-- The file after a run: what it was, what was kept up to the last append, and perhaps what was
kept after it. -/
theorem close_run (S : Serde) (sha256 : List UInt8 → Str) (content : List UInt8)
    (rs : List (Bool × Request)) (flushed : Bool) :
    ∃ as, as ⊆ unsaved (attempts sha256 (openFile S sha256 content) rs) ∧
      ((Live.openAt S sha256 content).run S sha256 rs).close flushed =
        content ++ (pieces (kept 0 (S.linesOf
          (lastSaved (attempts sha256 (openFile S sha256 content) rs)))) ++
            pieces (kept 0 (S.linesOf as))) := by
  generalize hrun : attempts sha256 (openFile S sha256 content) rs = as
  have hsink : ((Live.openAt S sha256 content).run S sha256 rs).sink =
      Sink.writeLines { file := content ++ pieces (kept 0 (S.linesOf (lastSaved as))), buf := [] }
        (S.linesOf (unsaved as)) := by
    rw [run_sink, ← writeLines_lastSaved, ← writeLines_writeLines, Serde.linesOf, Serde.linesOf,
      Serde.linesOf, ← List.map_append, lastSaved_append_unsaved, ← hrun]
    rfl
  have hfile := @file_writeLines_of_false
    { file := content ++ pieces (kept 0 (S.linesOf (lastSaved as))), buf := [] }
    (Nat.zero_le _) (S.linesOf (unsaved as)) (by
      rintro l hl
      obtain ⟨a, ha, rfl⟩ := List.mem_map.1 hl
      exact mem_unsaved ha)
  obtain ⟨hbytes, -⟩ := writeLines_append
    (s := { file := content ++ pieces (kept 0 (S.linesOf (lastSaved as))), buf := [] })
    (Nat.zero_le _) (S.linesOf (unsaved as))
  rw [← hsink] at hfile hbytes
  rw [hfile, List.append_nil] at hbytes
  have hbuf := List.append_cancel_left hbytes
  rw [Live.close]
  by_cases hempty : ((Live.openAt S sha256 content).run S sha256 rs).sink.buf = []
  · refine ⟨[], nofun, ?_⟩
    rw [Sink.flushBuf, if_pos hempty, hfile]
    exact congrArg _ (List.append_nil _).symm
  · cases flushed with
    | true =>
      refine ⟨unsaved as, List.Subset.refl _, ?_⟩
      rw [flushBuf_true, hfile, hbuf, List.append_assoc]
      rfl
    | false =>
      refine ⟨[], nofun, ?_⟩
      rw [flushBuf_false hempty, hfile]
      exact congrArg _ (List.append_nil _).symm

/-- Lines that are all kept whole, behind the rest of a file. -/
theorem cut_allWhole {p : ℕ} {a : Bool × AuditEntry} (before : List UInt8)
    (h : AllWhole p (S.linesOf (a :: as))) :
    (cut before (pieces (kept p (S.linesOf (a :: as))))).1 =
      (before ++ S.line a.2) :: as.map fun a => S.line a.2 := by
  rw [pieces_of_allWhole h, Serde.linesOf, List.map_map]
  clear h
  induction as generalizing before a with
  | nil =>
    have hpieces : ([a].map (Prod.snd ∘ fun a => (a.1, S.line a.2))).flatMap
        (fun line => line ++ [10]) = S.line a.2 ++ [10] ++ [] := rfl
    rw [hpieces, cut_line (newline_not_mem_line S a.2)]
    rfl
  | cons b as ih =>
    have hpieces : ((a :: b :: as).map (Prod.snd ∘ fun a => (a.1, S.line a.2))).flatMap
        (fun line => line ++ [10]) = S.line a.2 ++ [10] ++
          ((b :: as).map (Prod.snd ∘ fun a => (a.1, S.line a.2))).flatMap
            (fun line => line ++ [10]) := rfl
    rw [hpieces, cut_line (newline_not_mem_line S a.2), ih []]
    rfl

/-- The lines of the file after a run: those that were complete, those up to the last append, the
first of them behind the rest of the file, and those after it. -/
theorem lines_of_run {as as' : List (Bool × AuditEntry)} (h : lastSaved as ≠ []) :
    S.completeLines (content ++ (pieces (kept 0 (S.linesOf (lastSaved as))) ++
        pieces (kept 0 (S.linesOf as')))) ++
      S.lastLine (content ++ (pieces (kept 0 (S.linesOf (lastSaved as))) ++
        pieces (kept 0 (S.linesOf as')))) =
      S.completeLines content ++
        ((cut (cut [] content).2 (pieces (kept 0 (S.linesOf (lastSaved as))))).1.map
            (fun line => S.parseLine (stripCr line)) ++
          (S.completeLines (pieces (kept 0 (S.linesOf as'))) ++
            S.lastLine (pieces (kept 0 (S.linesOf as'))))) := by
  have hrest : (cut (cut [] content).2 (pieces (kept 0 (S.linesOf (lastSaved as))))).2 = [] := by
    obtain ⟨l, e, hl⟩ := lastSaved_eq_concat h
    have hend : ∃ bytes, pieces (kept 0 (S.linesOf (lastSaved as))) = bytes ++ [10] := by
      rw [hl, Serde.linesOf, List.map_append, List.map_singleton]
      exact pieces_kept_concat _ _ _
    obtain ⟨bytes, hbytes⟩ := hend
    rw [hbytes, rest_of_concat]
  unfold Serde.completeLines Serde.lastLine
  rw [cut_append, cut_append, hrest]
  simp only [List.map_append, List.append_assoc]

/-! ### The chain of a run -/

/-- The entries of a run go on with the chain of the file. -/
theorem intact_run (S : Serde) (sha256 : List UInt8 → Str) (content : List UInt8)
    (rs : List (Bool × Request)) :
    Intact sha256 ((openFile S sha256 content).entries ++
      (attempts sha256 (openFile S sha256 content) rs).map Prod.snd) := by
  have hlinked := (@linked_openFile S sha256 content).run
    (S := S) (l := Live.openAt S sha256 content) rs
  have hentries := @run_entries S sha256 (Live.openAt S sha256 content) rs
  have hintact := hlinked.intact
  rw [hentries] at hintact
  exact hintact

theorem intact_lastSaved (S : Serde) (sha256 : List UInt8 → Str) (content : List UInt8)
    (rs : List (Bool × Request)) :
    Intact sha256 ((openFile S sha256 content).entries ++
      (lastSaved (attempts sha256 (openFile S sha256 content) rs)).map Prod.snd) := by
  have h := intact_run S sha256 content rs
  rw [← lastSaved_append_unsaved (attempts sha256 (openFile S sha256 content) rs),
    List.map_append, ← List.append_assoc] at h
  exact (chain_append.1 h).1

/-- A run that was safe is replayed up to its last append. -/
theorem durable_of_safe {flushed : Bool} (h : Safe S sha256 content rs) :
    Durable S sha256 content rs flushed := by
  obtain ⟨hcontinues, hwhole⟩ := h
  rw [Durable, appended_eq]
  generalize hrun : attempts sha256 (openFile S sha256 content) rs = as at hcontinues hwhole ⊢
  cases hsaved : lastSaved as with
  | nil => exact List.nil_sublist _
  | cons a l =>
    obtain ⟨as', -, hfile⟩ := close_run S sha256 content rs flushed
    rw [hrun] at hfile
    obtain ⟨hunbroken, hrest, hfirst⟩ := hcontinues a (by rw [hsaved]; rfl)
    -- the log before the run is what the complete lines of the file give
    have hlog : replay sha256 {} (S.completeLines content) = openFile S sha256 content := by
      have hlinked := @Linked.replay sha256 _ linked_new (S.completeLines content)
      have hopen := @linked_openFile S sha256 content
      have htip : (replay sha256 {} (S.completeLines content)).tip =
          (openFile S sha256 content).tip := by
        rw [hlinked.tip_eq, hopen.tip_eq, hrest]
      generalize replay sha256 {} (S.completeLines content) = log at hrest htip ⊢
      generalize openFile S sha256 content = log' at hrest htip ⊢
      cases log
      cases log'
      simp_all
    have hchain : Chain (format sha256) (openFile S sha256 content).tip
        ((lastSaved as).map Prod.snd) := by
      have hintact := intact_lastSaved S sha256 content rs
      rw [hrun] at hintact
      rw [(linked_openFile content).tip_eq]
      exact (chain_append.1 hintact).2
    have hlines : (cut (cut [] content).2 (pieces (kept 0 (S.linesOf (lastSaved as))))).1.map
        (fun line => S.parseLine (stripCr line)) = ((lastSaved as).map Prod.snd).map some := by
      have hstrip : ∀ e, S.parseLine (stripCr (S.line e)) = some e := fun e => by
        rw [show S.line e = [] ++ S.line e from rfl, stripCr_line, List.nil_append, parseLine_line]
      rw [hsaved] at hwhole ⊢
      rw [cut_allWhole _ hwhole, List.map_cons, hfirst, List.map_map, List.map_cons, List.map_cons,
        List.map_map]
      refine congrArg _ (List.map_congr_left fun b _ => hstrip b.2)
    obtain ⟨l', hreplayed⟩ := @replay_of_chain sha256 (openFile S sha256 content) _ hchain
      (S.completeLines (pieces (kept 0 (S.linesOf as'))) ++
        S.lastLine (pieces (kept 0 (S.linesOf as'))))
    have hreopened : (reopened S sha256 content rs flushed).entries =
        (openFile S sha256 content).entries ++ (lastSaved as).map Prod.snd ++ l' := by
      rw [reopened, hfile, openFile, lines_of_run (by rw [hsaved]; exact List.cons_ne_nil _ _),
        replay_append_of_unbroken hunbroken, hlog, hlines, hreplayed]
    rw [hreopened, ← hsaved, appended]
    exact ((List.filter_sublist.map Prod.snd).trans (List.sublist_append_right _ _)).trans
      (List.sublist_append_left _ _)

/-- A chain that has the last entry of another has all of it, in front. -/
theorem intact_append_of_mem {l l' : List AuditEntry} {e : AuditEntry}
    (hl : Intact sha256 (l ++ [e])) (hl' : Intact sha256 l') (he : e ∈ l')
    (hsha : NoCollision sha256 (l ++ [e] ++ l')) : ∃ rest, l' = l ++ [e] ++ rest := by
  obtain ⟨before, after, rfl⟩ := List.append_of_mem he
  have hbefore : Intact sha256 (before ++ [e]) := by
    rw [List.append_cons] at hl'
    exact (chain_append.1 hl').1
  have hequal : before ++ [e] = l ++ [e] := by
    refine hbefore.unique hl (hsha.collisionFree.mono fun x hx => ?_) (by simp)
    simp only [List.mem_append, List.mem_cons, List.not_mem_nil, or_false] at hx ⊢
    tauto
  exact ⟨after, by rw [← hequal, List.append_cons]⟩

/-- Options of which as many are entries as there are, are all entries. -/
theorem eq_map_some {l : List (Option AuditEntry)} (h : (l.filterMap id).length = l.length) :
    l = (l.filterMap id).map some := by
  induction l with
  | nil => rfl
  | cons a l ih =>
    cases a with
    | none =>
      have hle := List.length_filterMap_le id l
      have hlen : (l.filterMap id).length = l.length + 1 := h
      omega
    | some e =>
      have hlen : (l.filterMap id).length = l.length := Nat.succ.inj h
      exact congrArg _ (ih hlen)

/-- Entries that are split in two ways, where none of the second part is in front. -/
theorem eq_of_append_eq {x a rest d d' : List AuditEntry} (h : x ++ a ++ rest = d ++ d')
    (hdisjoint : ∀ e ∈ d', e ∉ x ++ a) (hlen : d.length ≤ a.length) : x = [] ∧ d = a := by
  have hfront : x ++ a <+: d := by
    rcases List.append_eq_append_iff.1 h with ⟨m, hm, -⟩ | ⟨m, hm, hm'⟩
    · exact ⟨m, hm.symm⟩
    · cases m with
      | nil => exact ⟨[], by rw [hm, List.append_nil, List.append_nil]⟩
      | cons e m =>
        have he : e ∈ d' := by
          rw [hm']
          exact List.mem_append_left _ List.mem_cons_self
        refine absurd ?_ (hdisjoint e he)
        rw [hm]
        exact List.mem_append_right _ List.mem_cons_self
  have hle := hfront.length_le
  rw [List.length_append] at hle
  have hx : x = [] := List.eq_nil_of_length_eq_zero (by omega)
  subst hx
  exact ⟨rfl, (hfront.eq_of_length (by simp only [List.nil_append]; omega)).symm⟩

/-- Only safe runs are replayed. -/
theorem safe_of_durable {flushed : Bool} (h : Durable S sha256 content rs flushed)
    (hsha : NoCollision sha256 (((openFile S sha256 content).entries ++
      (attempts sha256 (openFile S sha256 content) rs).map Prod.snd) ++
        (reopened S sha256 content rs flushed).entries)) : Safe S sha256 content rs := by
  have hintact := intact_run S sha256 content rs
  have hsavedIntact := intact_lastSaved S sha256 content rs
  have hnodup := hintact.nodup (hsha.collisionFree.mono (List.subset_append_left _ _))
  obtain ⟨as', has', hfile⟩ := close_run S sha256 content rs flushed
  rw [Durable, appended_eq] at h
  unfold Safe
  generalize attempts sha256 (openFile S sha256 content) rs = as at *
  dsimp only
  by_cases hempty : lastSaved as = []
  · rw [hempty]
    exact ⟨nofun, trivial⟩
  · obtain ⟨l, e, hl⟩ := lastSaved_eq_concat hempty
    have he : e ∈ (reopened S sha256 content rs flushed).entries := by
      refine h.subset ?_
      rw [hl]
      simp [appended]
    -- the last append is there, and with it all that is before it in the chain
    obtain ⟨rest, hrest⟩ : ∃ rest, (reopened S sha256 content rs flushed).entries =
        (openFile S sha256 content).entries ++ (lastSaved as).map Prod.snd ++ rest := by
      have hsub : (openFile S sha256 content).entries ++ (lastSaved as).map Prod.snd ++
          (reopened S sha256 content rs flushed).entries ⊆
            (openFile S sha256 content).entries ++ as.map Prod.snd ++
              (reopened S sha256 content rs flushed).entries := by
        intro x hx
        have hmem : ∀ y ∈ (lastSaved as).map Prod.snd, y ∈ as.map Prod.snd := fun y hy =>
          ((List.rdropWhile_prefix _ as).sublist.map Prod.snd).subset hy
        simp only [List.mem_append] at hx ⊢
        exact hx.imp_left (Or.imp_right (hmem x))
      have hsha' := hsha.mono hsub
      rw [hl, List.map_append, List.map_singleton, ← List.append_assoc] at hsavedIntact hsha' ⊢
      exact intact_append_of_mem hsavedIntact (linked_openFile _).intact he hsha'
    have hreplay : (reopened S sha256 content rs flushed).entries =
        (replay sha256 {} (S.completeLines content ++
          ((cut (cut [] content).2 (pieces (kept 0 (S.linesOf (lastSaved as))))).1.map
            (fun line => S.parseLine (stripCr line)) ++
              (S.completeLines (pieces (kept 0 (S.linesOf as'))) ++
                S.lastLine (pieces (kept 0 (S.linesOf as'))))))).entries := by
      rw [reopened, hfile, openFile, lines_of_run hempty]
    cases hbreaks : breaks sha256 {} (S.completeLines content) with
    | true =>
      -- then nothing that is behind the break is replayed
      rw [replay_append_of_broken hbreaks, hrest, openFile, replay_append_of_broken hbreaks,
        List.append_assoc, List.append_right_eq_self] at hreplay
      rw [hl] at hreplay
      simp at hreplay
    | false =>
      -- every line up to the last append adds at most one entry, and those behind it none of these
      rw [replay_append_of_unbroken hbreaks] at hreplay
      obtain ⟨d, d', hd, hdsub, hdsub'⟩ := @replay_entries_append
        sha256 (replay sha256 {} (S.completeLines content))
        ((cut (cut [] content).2 (pieces (kept 0 (S.linesOf (lastSaved as))))).1.map
          (fun line => S.parseLine (stripCr line)))
        (S.completeLines (pieces (kept 0 (S.linesOf as'))) ++
          S.lastLine (pieces (kept 0 (S.linesOf as'))))
      obtain ⟨x, hx, -⟩ := @replay_entries sha256
        (replay sha256 {} (S.completeLines content)) (S.lastLine content)
      have hopen : (openFile S sha256 content).entries =
          (replay sha256 {} (S.completeLines content)).entries ++ x := by
        rw [openFile, replay_append_of_unbroken hbreaks, hx]
      have hsplit : x ++ (lastSaved as).map Prod.snd ++ rest = d ++ d' := by
        rw [hd, hrest, hopen, List.append_assoc, List.append_assoc, List.append_assoc] at hreplay
        rw [List.append_assoc]
        exact List.append_cancel_left hreplay
      have hdisjoint : ∀ y ∈ d', y ∉ x ++ (lastSaved as).map Prod.snd := by
        intro y hy hmem
        have hread : some y ∈ S.completeLines (pieces (kept 0 (S.linesOf as'))) ++
            S.lastLine (pieces (kept 0 (S.linesOf as'))) := by
          obtain ⟨o, ho, hoy⟩ := List.mem_filterMap.1 (hdsub'.subset hy)
          exact (show o = some y from hoy) ▸ ho
        obtain ⟨b, hb, rfl⟩ := List.mem_map.1 (mem_of_kept hread)
        have hlist := hnodup.of_map
        rw [← lastSaved_append_unsaved as, List.map_append, ← List.append_assoc,
          List.nodup_append] at hlist
        refine hlist.2.2 b.2 ?_ b.2 (List.mem_map_of_mem (has' hb)) rfl
        rw [hopen, List.append_assoc]
        exact List.mem_append_right _ hmem
      have hcount : (cut (cut [] content).2 (pieces (kept 0 (S.linesOf (lastSaved as))))).1.length =
          (kept 0 (S.linesOf (lastSaved as))).countP fun p => p.1 = some true := by
        rw [length_cut, count_pieces]
        intro p hp
        obtain ⟨y, -, hy⟩ := kept_line (lastSaved as) p hp
        rw [hy]
        exact newline_not_mem_line S y
      have hkept : (kept 0 (S.linesOf (lastSaved as))).length = (lastSaved as).length := by
        rw [length_kept, Serde.linesOf, List.length_map]
      have hcountP := List.countP_le_length
        (p := fun p : Option Bool × List UInt8 => decide (p.1 = some true))
        (l := kept 0 (S.linesOf (lastSaved as)))
      have hdlen := hdsub.length_le
      have hfilter := List.length_filterMap_le id
        ((cut (cut [] content).2 (pieces (kept 0 (S.linesOf (lastSaved as))))).1.map
          fun line => S.parseLine (stripCr line))
      rw [List.length_map] at hfilter
      obtain ⟨rfl, rfl⟩ := eq_of_append_eq hsplit hdisjoint (by rw [List.length_map]; omega)
      rw [List.length_map] at hdlen
      have hwhole : AllWhole 0 (S.linesOf (lastSaved as)) := by
        have hall : (kept 0 (S.linesOf (lastSaved as))).countP (fun p => decide (p.1 = some true)) =
            (kept 0 (S.linesOf (lastSaved as))).length := by omega
        rw [← kept_whole_iff]
        intro p hp
        exact of_decide_eq_true (List.countP_eq_length.1 hall p hp)
      have hlines := eq_map_some (l := (cut (cut [] content).2
        (pieces (kept 0 (S.linesOf (lastSaved as))))).1.map fun line => S.parseLine (stripCr line))
        (by rw [List.length_map]; omega)
      rw [← hdsub.eq_of_length (by rw [List.length_map]; omega)] at hlines
      refine ⟨fun a ha => ⟨hbreaks, by rw [hopen, List.append_nil], ?_⟩, hwhole⟩
      obtain ⟨l', hl'⟩ := List.head?_eq_some_iff.1 ha
      rw [hl'] at hwhole hlines
      rw [cut_allWhole _ hwhole] at hlines
      exact (List.cons.inj hlines).1

/-- The entries that were appended in a run are replayed, in order, if and only if either none was,
or the file can be gone on with the first attempt and those that fail before the last append are
kept whole. -/
theorem durable_iff {flushed : Bool}
    (hsha : NoCollision sha256 (((openFile S sha256 content).entries ++
      (attempts sha256 (openFile S sha256 content) rs).map Prod.snd) ++
        (reopened S sha256 content rs flushed).entries)) :
    Durable S sha256 content rs flushed ↔ Safe S sha256 content rs :=
  ⟨fun h => safe_of_durable h hsha, durable_of_safe⟩

/-! ### A record in an empty file, and behind a torn line -/

/-- A file without a line feed. -/
theorem openFile_of_not_mem (h : (10 : UInt8) ∉ content) :
    openFile S sha256 content = replay sha256 {} (S.lastLine content) := by
  rw [openFile, Serde.completeLines, cut_of_not_mem h]
  rfl

/-- One record in a file without a line feed. -/
theorem reopened_one (h : (10 : UInt8) ∉ content) (r : Request) (flushed : Bool) :
    reopened S sha256 content [(true, r)] flushed =
      replay sha256 {} [S.parseLine (content ++
          S.line (r.entry sha256 (openFile S sha256 content)))] := by
  have hclose : ((Live.openAt S sha256 content).run S sha256 [(true, r)]).close flushed =
      content ++ S.line (r.entry sha256 (openFile S sha256 content)) ++ [10] := by
    rw [Live.close, run_sink]
    simp only [attempts, Serde.linesOf, List.map_cons, List.map_nil, Sink.writeLines,
      List.foldl_cons, List.foldl_nil, writeLine_true, Live.openAt, List.append_nil]
    exact congrArg (fun s : Sink × Bool => s.1.file) (if_pos rfl)
  have hcut : cut [] (content ++ S.line (r.entry sha256 (openFile S sha256 content)) ++ [10]) =
      ([content ++ S.line (r.entry sha256 (openFile S sha256 content))], []) := by
    rw [List.append_assoc, cut_append, cut_of_not_mem h, ← List.append_nil (S.line _ ++ [10]),
      cut_line (newline_not_mem_line S _)]
    rfl
  rw [reopened, hclose, openFile, Serde.completeLines, Serde.lastLine, hcut]
  dsimp only
  rw [if_pos rfl, List.append_nil, List.map_singleton, stripCr_line]

theorem replay_entry (r : Request) (log : AuditLog) :
    (replay sha256 log [some (r.entry sha256 log)]).entries =
      log.entries ++ [r.entry sha256 log] := by
  have hprev : (r.entry sha256 log).prevHash = log.tip := rfl
  have hhash : computeEntryHash sha256 (r.entry sha256 log) = (r.entry sha256 log).hash :=
    computeEntryHash_nextEntry _ _ _ _ _
  rw [replay, if_neg (not_not.2 hprev), if_neg (not_not.2 hhash)]
  rfl

/-- A shell command, recorded. -/
def command : Request :=
  { timestamp := strOf "2026-01-01T00:00:00+00:00", agentId := strOf "ann", action := .shellExec
    detail := strOf "ls", outcome := strOf "ok" }

theorem command_noCollision : NoCollision sumHash [command.entry sumHash {}] :=
  noCollision_forged.mono (List.subset_append_left oneRecord.entries _)

theorem openFile_empty : openFile compactJson sumHash [] = {} :=
  openFile_of_not_mem List.not_mem_nil

theorem reopened_empty :
    (reopened compactJson sumHash [] [(true, command)] false).entries =
      [command.entry sumHash {}] := by
  rw [reopened_one List.not_mem_nil, openFile_empty, List.nil_append, parseLine_line, replay_entry]
  rfl

theorem durable_empty : Durable compactJson sumHash [] [(true, command)] false := by
  refine (durable_iff ?_).2 ⟨fun a ha => ?_, trivial⟩
  · rw [reopened_empty, openFile_empty]
    exact command_noCollision.mono fun x hx => by simpa [attempts] using hx
  · refine ⟨rfl, rfl, ?_⟩
    rw [show (cut [] []).2 ++ compactJson.line a.2 = [] ++ compactJson.line a.2 from rfl,
      stripCr_line, List.nil_append, parseLine_line]

/-- A file that ends within a line. -/
def torn : List UInt8 := utf8 "x"

theorem readEntry_torn (s : String) : readEntry ("x" ++ s) = none := by
  have hstrip : JsonText.strip seqField ("x" ++ s).toList = none := by
    refine if_neg fun hfront => ?_
    rw [String.toList_append] at hfront
    obtain ⟨rest, hrest⟩ := hfront
    exact absurd (List.cons.inj hrest).1 (by decide)
  rw [readEntry, hstrip]
  rfl

theorem openFile_torn : openFile compactJson sumHash torn = {} := by
  have hparse : compactJson.parseLine torn = none := by
    have hread := readEntry_torn ""
    rw [String.append_empty] at hread
    rw [torn, parseLine_utf8 _ (by decide)]
    exact hread
  rw [openFile_of_not_mem (by decide), Serde.lastLine, cut_of_not_mem (by decide), List.nil_append,
    hparse]
  rfl

theorem durable_fails :
    ¬ ∀ (S : Serde) (sha256 : List UInt8 → Str) (content : List UInt8) (rs : List (Bool × Request))
      (flushed : Bool),
      NoCollision sha256 (((openFile S sha256 content).entries ++
        (attempts sha256 (openFile S sha256 content) rs).map Prod.snd) ++
          (reopened S sha256 content rs flushed).entries) →
      Durable S sha256 content rs flushed := by
  intro h
  have hreopened : (reopened compactJson sumHash torn [(true, command)] false).entries = [] := by
    have hblank : Text.isBlank ("x" ++ entryText (command.entry sumHash {})) = false := by
      rw [Text.isBlank, String.toList_append, List.all_append]
      exact Bool.and_eq_false_imp.2 fun hx => absurd hx (by decide)
    rw [reopened_one (by decide), openFile_torn, torn, Serde.line, ← utf8_append,
      show compactJson.toString = entryText from rfl, parseLine_utf8 _ hblank]
    rw [show compactJson.fromStr = readEntry from rfl, readEntry_torn]
    rfl
  have hdurable := h compactJson sumHash torn [(true, command)] false (by
    rw [hreopened, openFile_torn]
    exact command_noCollision.mono fun x hx => by simpa [attempts] using hx)
  rw [Durable, hreopened, openFile_torn] at hdurable
  simp [attempts, appended] at hdurable

end Audit
end RustyHand
