import RustyHand.Memory.Canonical
import RustyHand.Lib.Runs

/-!
# The summary of a canonical session

What `append_canonical` of `rusty-hand-memory/src/session.rs` keeps of the messages that it drops,
over any number of calls and thresholds.

* `Appended`: the session of an agent, and all messages appended to it;
* `joined`: the lines of messages;
* `Windowed`: the session holds the last messages, and its summary ends the lines of the others;
* `StartsClean`: a call that does not put a short text behind an empty summary;
* `windowed_iff_startsClean`: every state of a run is windowed, if and only if its calls all start
  clean.
-/

namespace RustyHand
namespace CanonicalSession

/-! ### The lines of messages -/

/-- The lines of some messages, one below another. -/
def joined (ms : List Message) : String := "\n".intercalate (ms.filterMap summaryLine)

theorem summaryText_none (ms : List Message) : summaryText none ms = joined ms := rfl

theorem summaryLine_ne_empty {m : Message} {line : String} (h : summaryLine m = some line) :
    line ≠ "" := by
  unfold summaryLine at h
  dsimp only at h
  split at h
  · cases h
  · cases h
    intro heq
    have hlist := congrArg String.toList heq
    simp at hlist

theorem intercalate_eq_empty {ls : List String} (hne : ∀ l ∈ ls, l ≠ "")
    (h : "\n".intercalate ls = "") : ls = [] := by
  cases ls with
  | nil => rfl
  | cons l ls =>
    have hl := hne l List.mem_cons_self
    by_cases hls : ls = []
    · subst hls
      rw [String.intercalate_singleton] at h
      exact absurd h hl
    · rw [String.intercalate_cons_of_ne_nil hls] at h
      have hlist := congrArg String.toList h
      simp at hlist

theorem joined_eq_empty_iff {ms : List Message} :
    joined ms = "" ↔ ms.filterMap summaryLine = [] := by
  constructor
  · refine intercalate_eq_empty fun line hline => ?_
    obtain ⟨m, -, hm⟩ := List.mem_filterMap.1 hline
    exact summaryLine_ne_empty hm
  · intro h
    rw [joined, h, String.intercalate_nil]

theorem intercalate_append {ls : List String} (hls : ls ≠ []) (ls' : List String) :
    "\n".intercalate (ls ++ ls') = "\n".intercalate ("\n".intercalate ls :: ls') := by
  by_cases hls' : ls' = []
  · subst hls'
    rw [List.append_nil, String.intercalate_singleton]
  · rw [String.intercalate_append_of_ne_nil hls hls', String.intercalate_cons_of_ne_nil hls']

/-- Behind lines, others are put as behind a summary. -/
theorem joined_append (dropped batch : List Message) (h : joined dropped ≠ "") :
    joined (dropped ++ batch) = summaryText (some (joined dropped)) batch := by
  have hlines : dropped.filterMap summaryLine ≠ [] := fun hnil => h (joined_eq_empty_iff.2 hnil)
  rw [joined, List.filterMap_append, intercalate_append hlines]
  rfl

/-- Behind messages without text there is nothing but the lines. -/
theorem joined_append_of_empty {dropped : List Message} (h : joined dropped = "")
    (batch : List Message) : joined (dropped ++ batch) = joined batch := by
  rw [joined, List.filterMap_append, joined_eq_empty_iff.1 h, List.nil_append]
  rfl

/-! ### A window at the end of a text -/

/-- A text that ends another: the whole, or about its last 4000 bytes. -/
structure Window (whole kept : String) : Prop where
  suffix : kept.toList <:+ whole.toList
  bounded : Text.byteLength kept.toList ≤ summaryBytes + 3
  full : kept = whole ∨ summaryBytes ≤ Text.byteLength kept.toList

theorem byteLength_keepTail_le (s : String) :
    Text.byteLength (keepTail s).toList ≤ summaryBytes + 3 := by
  unfold keepTail
  split_ifs with hlong
  · have hle : Text.byteLength s.toList - summaryBytes ≤ Text.byteLength s.toList := Nat.sub_le _ _
    have := Text.byteLength_dropBytes_le hle
    rw [String.toList_ofList]
    omega
  · omega

theorem window_keepTail (s : String) : Window s (keepTail s) where
  suffix := keepTail_suffix s
  bounded := byteLength_keepTail_le s
  full := keepTail_eq_or_le s

theorem Window.eq_empty_iff {whole kept : String} (h : Window whole kept) :
    kept = "" ↔ whole = "" := by
  constructor
  · rintro rfl
    rcases h.full with heq | hle
    · exact heq.symm
    · exact absurd hle (by decide)
  · rintro rfl
    exact String.toList_eq_nil_iff.1 (List.suffix_nil.1 h.suffix)

theorem Window.summaryText {whole kept : String} (h : Window whole kept) (batch : List Message) :
    Window (summaryText (some whole) batch) (keepTail (summaryText (some kept) batch)) := by
  obtain ⟨rest, hrest⟩ := exists_summaryText_eq batch
  refine ⟨(keepTail_suffix _).trans ?_, byteLength_keepTail_le _, ?_⟩
  · rw [hrest whole, hrest kept]
    obtain ⟨front, hfront⟩ := h.suffix
    exact ⟨front, by rw [← hfront, List.append_assoc]⟩
  · rcases keepTail_eq_or_le (CanonicalSession.summaryText (some kept) batch) with heq | hle
    · rcases h.full with rfl | hfull
      · exact .inl heq
      · right
        rw [heq, hrest kept, Text.byteLength_append]
        omega
    · exact .inr hle

/-- A text behind an empty summary, of which only a long one is cut at its start. -/
theorem summaryText_empty {batch : List Message} (h : joined batch ≠ "") :
    (summaryText (some "") batch).toList = '\n' :: (joined batch).toList := by
  have hlines : batch.filterMap summaryLine ≠ [] := fun hnil => h (joined_eq_empty_iff.2 hnil)
  rw [summaryText, Option.toList_some, List.singleton_append,
    String.intercalate_cons_of_ne_nil hlines]
  simp [joined]

/-- Behind an empty summary a long text is kept from behind its line break on. -/
theorem window_of_long {batch : List Message} (h : joined batch ≠ "")
    (hlong : summaryBytes ≤ Text.byteLength (joined batch).toList) :
    Window (joined batch) (keepTail (summaryText (some "") batch)) := by
  have hbytes : Text.byteLength ('\n' :: (joined batch).toList) =
      Text.byteLength (joined batch).toList - summaryBytes + 1 + summaryBytes := by
    have hcons : Text.byteLength ('\n' :: (joined batch).toList) =
        1 + Text.byteLength (joined batch).toList := rfl
    omega
  have hkept : (keepTail (summaryText (some "") batch)).toList =
      Text.dropBytes (Text.byteLength (joined batch).toList - summaryBytes)
        (joined batch).toList := by
    rw [keepTail, summaryText_empty h, if_pos (by omega), hbytes, Nat.add_sub_cancel,
      String.toList_ofList, Text.dropBytes_succ_cons rfl]
  refine ⟨?_, byteLength_keepTail_le _, .inr ?_⟩
  · rw [hkept]
    exact Text.dropBytes_suffix ..
  · have := Text.le_byteLength_dropBytes
      (Text.byteLength (joined batch).toList - summaryBytes) (joined batch).toList
    rw [hkept]
    omega

/-- Behind an empty summary a short text is kept with the line break before it. -/
theorem not_window_of_short {batch : List Message} (h : joined batch ≠ "")
    (hshort : Text.byteLength (joined batch).toList < summaryBytes) :
    ¬ Window (joined batch) (keepTail (summaryText (some "") batch)) := by
  intro hwindow
  have hcons : Text.byteLength ('\n' :: (joined batch).toList) =
      1 + Text.byteLength (joined batch).toList := rfl
  have hkept : keepTail (summaryText (some "") batch) = summaryText (some "") batch := by
    rw [keepTail, summaryText_empty h, if_neg (by omega)]
  have hlength := hwindow.suffix.length_le
  rw [hkept, summaryText_empty h, List.length_cons] at hlength
  omega

/-! ### Calls one after another -/

/-- A call of `append_canonical`: the new messages and the threshold. -/
structure AppendCall where
  newMessages : List Message
  threshold : Option ℕ := none

/-- The session of an agent, and all messages that have been appended to it. -/
structure Appended where
  session : CanonicalSession := {}
  all : List Message := []

namespace Appended

/-- One call. -/
def step (s : Appended) (call : AppendCall) : Appended where
  session := s.session.appendCanonical call.newMessages call.threshold
  all := s.all ++ call.newMessages

/-- The messages that the session does not hold any more. -/
def dropped (s : Appended) : List Message := s.all.take (s.all.length - s.session.messages.length)

/-- The messages that a call drops. -/
def batch (s : Appended) (call : AppendCall) : List Message :=
  (s.session.messages ++ call.newMessages).take
    ((s.session.messages ++ call.newMessages).length - defaultCanonicalWindow)

/-- Does a call drop messages? -/
def Compacts (s : Appended) (call : AppendCall) : Prop :=
  call.threshold.getD defaultCompactionThreshold <
      (s.session.messages ++ call.newMessages).length ∧
    defaultCanonicalWindow < (s.session.messages ++ call.newMessages).length

/-- The session holds the last messages appended, and its summary is a window at the end of the
lines of the others. -/
structure Windowed (s : Appended) : Prop where
  retained : s.session.messages <:+ s.all
  cursor : s.session.compactionCursor ≤ s.session.messages.length
  unsummarised : s.session.compactedSummary = none → s.dropped = []
  summary : ∀ text, s.session.compactedSummary = some text → Window (joined s.dropped) text

/-- Lines that a call puts behind an empty summary are long. -/
def StartsClean (s : Appended) (call : AppendCall) : Prop :=
  s.Compacts call → s.session.compactedSummary = some "" → joined (s.batch call) ≠ "" →
    summaryBytes ≤ Text.byteLength (joined (s.batch call)).toList

/-- What the states of a run keep: the cursor is at the start. -/
structure Kept (s : Appended) : Prop extends Windowed s where
  atStart : s.session.compactionCursor = 0

theorem dropped_eq {s : Appended} {front : List Message}
    (h : s.all = front ++ s.session.messages) : s.dropped = front := by
  rw [dropped, h, List.length_append, Nat.add_sub_cancel, List.take_left]

theorem dropped_append {s : Appended} (h : s.session.messages <:+ s.all) :
    s.all = s.dropped ++ s.session.messages := by
  obtain ⟨front, hfront⟩ := h
  rw [dropped_eq hfront.symm, hfront]

section Step

variable {s : Appended} {call : AppendCall}

/-- A call that drops nothing. -/
theorem session_of_not_compacts (hcursor : s.session.compactionCursor = 0)
    (h : ¬ s.Compacts call) : (s.step call).session =
      { s.session with messages := s.session.messages ++ call.newMessages } := by
  unfold Compacts at h
  simp only [step, appendCanonical]
  rw [if_neg (by omega)]

/-- A call that drops messages. -/
theorem session_of_compacts (hcursor : s.session.compactionCursor = 0) (h : s.Compacts call) :
    (s.step call).session =
      { messages := (s.session.messages ++ call.newMessages).drop
          ((s.session.messages ++ call.newMessages).length - defaultCanonicalWindow)
        compactionCursor := 0
        compactedSummary :=
          some (keepTail (summaryText s.session.compactedSummary (s.batch call))) } := by
  unfold Compacts at h
  simp only [step, appendCanonical]
  rw [if_pos (by omega), hcursor, List.drop_zero]
  rfl

theorem all_of_compacts (hkept : s.Kept) (h : s.Compacts call) :
    (s.step call).all = (s.dropped ++ s.batch call) ++ (s.step call).session.messages := by
  rw [session_of_compacts hkept.atStart h, List.append_assoc, batch, List.take_append_drop,
    ← List.append_assoc, ← dropped_append hkept.retained]
  rfl

theorem dropped_of_compacts (hkept : s.Kept) (h : s.Compacts call) :
    (s.step call).dropped = s.dropped ++ s.batch call := dropped_eq (all_of_compacts hkept h)

theorem dropped_of_not_compacts (hkept : s.Kept) (h : ¬ s.Compacts call) :
    (s.step call).dropped = s.dropped := by
  refine dropped_eq ?_
  rw [session_of_not_compacts hkept.atStart h, ← List.append_assoc,
    ← dropped_append hkept.retained]
  rfl

/-- The summary after a call that drops messages. -/
theorem window_of_compacts (hkept : s.Kept) (hclean : s.StartsClean call) (h : s.Compacts call) :
    Window (joined (s.dropped ++ s.batch call))
      (keepTail (summaryText s.session.compactedSummary (s.batch call))) := by
  cases hsummary : s.session.compactedSummary with
  | none =>
    rw [hkept.unsummarised hsummary, List.nil_append, summaryText_none]
    exact window_keepTail _
  | some text =>
    have hwindow := hkept.summary text hsummary
    by_cases hempty : joined s.dropped = ""
    · obtain rfl := hwindow.eq_empty_iff.2 hempty
      rw [joined_append_of_empty hempty]
      by_cases hbatch : joined (s.batch call) = ""
      · rw [hbatch, summaryText, joined_eq_empty_iff.1 hbatch]
        exact window_keepTail _
      · exact window_of_long hbatch (hclean h hsummary hbatch)
    · rw [joined_append _ _ hempty]
      exact hwindow.summaryText _

theorem Kept.step (hkept : s.Kept) (hclean : s.StartsClean call) : (s.step call).Kept := by
  by_cases h : s.Compacts call
  · have hsession := session_of_compacts hkept.atStart h
    refine ⟨⟨⟨_, (all_of_compacts hkept h).symm⟩, ?_, ?_, ?_⟩, ?_⟩
    · rw [hsession]
      exact Nat.zero_le _
    · intro hnone
      rw [hsession] at hnone
      cases hnone
    · intro text htext
      rw [hsession] at htext
      obtain rfl := Option.some.inj htext
      rw [dropped_of_compacts hkept h]
      exact window_of_compacts hkept hclean h
    · rw [hsession]
  · have hsession := session_of_not_compacts hkept.atStart h
    have hdropped := dropped_of_not_compacts hkept h
    refine ⟨⟨?_, ?_, ?_, ?_⟩, ?_⟩
    · rw [hsession]
      obtain ⟨front, hfront⟩ := hkept.retained
      exact ⟨front, by rw [← List.append_assoc, hfront]; rfl⟩
    · rw [hsession, hkept.atStart]
      exact Nat.zero_le _
    · rw [hsession, hdropped]
      exact hkept.unsummarised
    · rw [hsession, hdropped]
      exact hkept.summary
    · rw [hsession]
      exact hkept.atStart

/-- A call that does not start clean leaves a line break before the summary. -/
theorem startsClean_of_windowed (hkept : s.Kept) (h : (s.step call).Windowed) :
    s.StartsClean call := by
  intro hcompacts hsummary hbatch
  have hempty := (hkept.summary "" hsummary).eq_empty_iff.1 rfl
  have hwindow := h.summary _ (by rw [session_of_compacts hkept.atStart hcompacts])
  rw [dropped_of_compacts hkept hcompacts, joined_append_of_empty hempty, hsummary] at hwindow
  by_contra hshort
  exact not_window_of_short hbatch (not_le.1 hshort) hwindow

end Step

theorem kept_init : ({} : Appended).Kept where
  retained := List.suffix_rfl
  cursor := le_rfl
  unsummarised := fun _ => rfl
  summary := nofun
  atStart := rfl

/-- **The summary of a session.**  After every call of a run the session holds the last messages
appended and its summary ends the lines of the others, if and only if no call puts a short text
behind an empty summary. -/
theorem windowed_iff_startsClean (calls : List AppendCall) :
    (∀ k, (Runs.run step {} (calls.take k)).Windowed) ↔
      Runs.Along step StartsClean {} calls :=
  Runs.forall_take_iff_along kept_init (fun _ hkept => hkept.toWindowed)
    (fun _ _ hkept hclean => hkept.step hclean)
    fun _ _ hkept hwindowed => startsClean_of_windowed hkept hwindowed

/-- A call that drops a message without text, and one that drops a short text. -/
def quietThenText : List AppendCall :=
  [⟨⟨.assistant, .blocks [.toolUse "1" "now" .null]⟩ :: List.replicate 50 (.user "hi"), some 50⟩,
    ⟨[.user "hi"], some 50⟩]

/-- The summary begins with a line break that is not in the lines. -/
theorem quietThenText_not_windowed :
    ¬ ∀ (calls : List AppendCall) (k : ℕ), (Runs.run step {} (calls.take k)).Windowed := by
  intro h
  have hsummary : (Runs.run step {} (quietThenText.take 2)).session.compactedSummary =
      some "\nUser: hi" := by
    decide
  have hdropped : joined (Runs.run step {} (quietThenText.take 2)).dropped = "User: hi" := by
    decide
  have hlength := ((h quietThenText 2).summary _ hsummary).suffix.length_le
  rw [hdropped] at hlength
  revert hlength
  decide

end Appended
end CanonicalSession
end RustyHand
