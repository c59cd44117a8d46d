import RustyHand.Runtime.LoopText

/-!
# Directives in a text that comes in chunks

`StreamingDirectiveAccumulator` of `rusty-hand-runtime/src/reply_directives.rs`.  It passes over as
many characters as a tag has bytes, and holds the beginning of a tag back only from its second
bracket on and while it is short.

* `DirectiveAccumulator`, `consume`, `consumeAll`: the accumulator, and the chunks of a text;
* `tagsFrom`, `visible`: the tags of a text, and the text without them;
* `ReadsRight`, `EndsWell`, `readsRight_iff`: when the chunks are read as the text.
-/

namespace RustyHand
namespace LoopText

open Text

/-! ### The accumulator -/

/-- `StreamingDirectiveAccumulator`; `held` is its partial buffer. -/
structure DirectiveAccumulator where
  held : List Char := []
  directives : DirectiveSet := {}

/-- `MAX_PARTIAL_LEN`. -/
def maxPartialLen : ℕ := 30

/-- The loop of `consume`, and what it leaves.  The first number counts the characters of a tag that
are still to be passed over, as many as the tag has bytes. -/
def scanDirectives (isFinal : Bool) :
    ℕ → List Char → DirectiveSet → List Char × DirectiveAccumulator
  | _, [], d => ([], ⟨[], d⟩)
  | skip + 1, _ :: cs, d => scanDirectives isFinal skip cs d
  | 0, c :: cs, d =>
    let literal :=
      let rest := scanDirectives isFinal 0 cs d
      (c :: rest.1, rest.2)
    if ['[', '['] <+: c :: cs then
      match splitOnce [']', ']'] ((c :: cs).drop 2) with
      | some (tag, _) =>
        scanDirectives isFinal (byteLength tag + 3) cs (parseTag (String.ofList tag) d)
      | none =>
        if !isFinal && byteLength (c :: cs) < maxPartialLen then ([], ⟨c :: cs, d⟩) else literal
    else literal

/-- `consume`. -/
def consume (acc : DirectiveAccumulator) (chunk : List Char) (isFinal : Bool) :
    List Char × DirectiveAccumulator :=
  let r := scanDirectives isFinal 0 (acc.held ++ chunk) acc.directives
  if isFinal then (r.1 ++ r.2.held, ⟨[], r.2.directives⟩) else r

/-- The chunks of a text one after the other, the last of them final. -/
def consumeAll (acc : DirectiveAccumulator) : List (List Char) → List Char × DirectiveSet
  | [] => ([], acc.directives)
  | chunk :: chunks =>
    let r := consume acc chunk chunks.isEmpty
    let rest := consumeAll r.2 chunks
    (r.1 ++ rest.1, rest.2)

/-! ### The tags of a text -/

/-- The content of the tag that stands in front, and what stands behind it. -/
def tagAt (cs : List Char) : Option (List Char × List Char) :=
  if ['[', '['] <+: cs then splitOnce [']', ']'] (cs.drop 2) else none

/-- The tags from position `n` on, each with its position.  The second number counts the characters
of a tag that are still to be passed over. -/
def tagsFrom : ℕ → ℕ → List Char → List (ℕ × List Char)
  | _, _, [] => []
  | n, skip + 1, _ :: cs => tagsFrom (n + 1) skip cs
  | n, 0, c :: cs =>
    match tagAt (c :: cs) with
    | some (tag, _) => (n, tag) :: tagsFrom (n + 1) (tag.length + 3) cs
    | none => tagsFrom (n + 1) 0 cs

/-- The text without its tags. -/
def visible : ℕ → List Char → List Char
  | _, [] => []
  | skip + 1, _ :: cs => visible skip cs
  | 0, c :: cs =>
    match tagAt (c :: cs) with
    | some (tag, _) => visible (tag.length + 3) cs
    | none => c :: visible 0 cs

/-- What the tags set. -/
def directivesOf (tags : List (ℕ × List Char)) (d : DirectiveSet) : DirectiveSet :=
  tags.foldl (fun d t => parseTag (String.ofList t.2) d) d

/-- The chunks show the text without its tags, and set what the tags set; so does
`parse_directives`. -/
structure ReadsRight (chunks : List (List Char)) : Prop where
  shows : (consumeAll {} chunks).1 = visible 0 chunks.flatten
  sets : (consumeAll {} chunks).2 = directivesOf (tagsFrom 0 0 chunks.flatten) {}
  parses : (parseDirectives (String.ofList chunks.flatten)).2 =
    directivesOf (tagsFrom 0 0 chunks.flatten) {}

/-- The positions at which chunks end, but for the last chunk. -/
def chunkEnds : ℕ → List (List Char) → List ℕ
  | n, chunk :: next :: chunks =>
    (n + chunk.length) :: chunkEnds (n + chunk.length) (next :: chunks)
  | _, _ => []

/-- A chunk that ends inside a tag ends behind its second bracket, and within the first bytes that
are held back. -/
def EndsWell (tags : List (ℕ × List Char)) (ends : List ℕ) : Prop :=
  ∀ t ∈ tags, ∀ b ∈ ends, t.1 < b → b < t.1 + t.2.length + 4 →
    t.1 + 2 ≤ b ∧ b < t.1 + maxPartialLen

variable {cs cur tag rest text : List Char} {later : List (List Char)} {n k : ℕ}
  {d : DirectiveSet} {c : Char}

/-! ### One step of the reference -/

theorem eq_of_tagAt (h : tagAt cs = some (tag, rest)) :
    cs = ['[', '['] ++ (tag ++ ([']', ']'] ++ rest)) := by
  rw [tagAt] at h
  split_ifs at h with hpre
  have hdrop := List.prefix_iff_eq_append.1 hpre
  rw [← hdrop, ← List.append_assoc tag, ← eq_of_splitOnce h]
  rfl

theorem tagAt_cons_of_ne (h : ¬ ['[', '['] <+: cs) : tagAt cs = none := if_neg h

theorem tagsFrom_eq_drop (n k : ℕ) (cs : List Char) :
    tagsFrom n k cs = tagsFrom (n + k) 0 (cs.drop k) := by
  induction cs generalizing n k with
  | nil => simp [tagsFrom]
  | cons c cs ih =>
    cases k with
    | zero => rfl
    | succ k =>
      rw [tagsFrom, ih, List.drop_succ_cons, Nat.add_right_comm]
      rfl

theorem visible_eq_drop (k : ℕ) (cs : List Char) : visible k cs = visible 0 (cs.drop k) := by
  induction cs generalizing k with
  | nil => simp [visible]
  | cons c cs ih =>
    cases k with
    | zero => rfl
    | succ k => exact ih k

theorem scanDirectives_eq_drop (isFinal : Bool) (k : ℕ) (cs : List Char) (d : DirectiveSet) :
    scanDirectives isFinal k cs d = scanDirectives isFinal 0 (cs.drop k) d := by
  induction cs generalizing k with
  | nil => simp [scanDirectives]
  | cons c cs ih =>
    cases k with
    | zero => rfl
    | succ k => exact ih k

/-- What stands behind a tag. -/
theorem drop_of_tagAt (h : tagAt (c :: cs) = some (tag, rest)) :
    cs.drop (tag.length + 3) = rest := by
  have hsplit := eq_of_tagAt h
  have hdrop := congrArg (List.drop (tag.length + 4)) hsplit
  rw [List.drop_succ_cons] at hdrop
  rw [hdrop, ← List.append_assoc, ← List.append_assoc, List.drop_left']
  simp

theorem tagsFrom_of_tagAt (h : tagAt (c :: cs) = some (tag, rest)) :
    tagsFrom n 0 (c :: cs) = (n, tag) :: tagsFrom (n + tag.length + 4) 0 rest := by
  rw [tagsFrom, h]
  dsimp only
  rw [tagsFrom_eq_drop, drop_of_tagAt h]
  congr 2
  omega

theorem visible_of_tagAt (h : tagAt (c :: cs) = some (tag, rest)) :
    visible 0 (c :: cs) = visible 0 rest := by
  rw [visible, h]
  dsimp only
  rw [visible_eq_drop, drop_of_tagAt h]

theorem tagsFrom_of_none (h : tagAt (c :: cs) = none) :
    tagsFrom n 0 (c :: cs) = tagsFrom (n + 1) 0 cs := by
  rw [tagsFrom, h]

theorem visible_of_none (h : tagAt (c :: cs) = none) :
    visible 0 (c :: cs) = c :: visible 0 cs := by
  rw [visible, h]

theorem directivesOf_cons (t : ℕ × List Char) (tags : List (ℕ × List Char)) (d : DirectiveSet) :
    directivesOf (t :: tags) d = directivesOf tags (parseTag (String.ofList t.2) d) := by
  rw [directivesOf, List.foldl_cons, directivesOf]

/-! ### One step of the accumulator -/

theorem scanDirectives_of_tagAt {isFinal : Bool} (h : tagAt (c :: cs) = some (tag, rest))
    (hbytes : byteLength tag = tag.length) :
    scanDirectives isFinal 0 (c :: cs) d =
      scanDirectives isFinal 0 rest (parseTag (String.ofList tag) d) := by
  have hdrop := drop_of_tagAt h
  rw [tagAt] at h
  split_ifs at h with hpre
  rw [scanDirectives, if_pos hpre, h]
  dsimp only
  rw [scanDirectives_eq_drop, hbytes, hdrop]

theorem scanDirectives_held (hpre : ['[', '['] <+: c :: cs) (h : tagAt (c :: cs) = none)
    (hshort : byteLength (c :: cs) < maxPartialLen) :
    scanDirectives false 0 (c :: cs) d = ([], ⟨c :: cs, d⟩) := by
  rw [tagAt, if_pos hpre] at h
  rw [scanDirectives, if_pos hpre, h]
  exact if_pos (by simpa using hshort)

theorem scanDirectives_literal {isFinal : Bool} (h : tagAt (c :: cs) = none)
    (hlong : ['[', '['] <+: c :: cs → isFinal = true ∨ maxPartialLen ≤ byteLength (c :: cs)) :
    scanDirectives isFinal 0 (c :: cs) d =
      (c :: (scanDirectives isFinal 0 cs d).1, (scanDirectives isFinal 0 cs d).2) := by
  rw [scanDirectives]
  by_cases hpre : ['[', '['] <+: c :: cs
  · rw [tagAt, if_pos hpre] at h
    rw [if_pos hpre, h]
    refine if_neg ?_
    rcases hlong hpre with rfl | hlong
    · simp
    · simp [Nat.not_lt_of_le hlong]
  · rw [if_neg hpre]

theorem held_scanDirectives_final (k : ℕ) (cs : List Char) (d : DirectiveSet) :
    (scanDirectives true k cs d).2.held = [] := by
  induction cs generalizing k d with
  | nil => cases k <;> rfl
  | cons c cs ih =>
    cases k with
    | succ k => exact ih k d
    | zero =>
      cases h : tagAt (c :: cs) with
      | none =>
        rw [scanDirectives_literal h fun _ => .inl rfl]
        exact ih 0 d
      | some r =>
        obtain ⟨tag, rest⟩ := r
        rw [tagAt] at h
        split_ifs at h with hpre
        rw [scanDirectives, if_pos hpre, h]
        exact ih _ _

/-- Reading on: `cur` is what is left of a chunk, and `later` are the chunks behind it. -/
def readOn (cur : List Char) (later : List (List Char)) (d : DirectiveSet) :
    List Char × DirectiveSet := consumeAll ⟨cur, d⟩ ([] :: later)

theorem consumeAll_cons (held chunk : List Char) (later : List (List Char)) (d : DirectiveSet) :
    consumeAll ⟨held, d⟩ (chunk :: later) = readOn (held ++ chunk) later d := by
  rw [readOn, consumeAll, consumeAll, consume, consume, List.append_nil]

theorem readOn_final (cur : List Char) (d : DirectiveSet) :
    readOn cur [] d =
      ((scanDirectives true 0 cur d).1, (scanDirectives true 0 cur d).2.directives) := by
  rw [readOn, consumeAll, consume, List.append_nil]
  simp [consumeAll, held_scanDirectives_final]

theorem readOn_cons (cur m : List Char) (more : List (List Char)) (d : DirectiveSet) :
    readOn cur (m :: more) d =
      ((scanDirectives false 0 cur d).1 ++
        (consumeAll (scanDirectives false 0 cur d).2 (m :: more)).1,
        (consumeAll (scanDirectives false 0 cur d).2 (m :: more)).2) := by
  rw [readOn, consumeAll, consume, List.append_nil]
  rfl

theorem readOn_nil_cons (m : List Char) (more : List (List Char)) (d : DirectiveSet) :
    readOn [] (m :: more) d = readOn m more d := by
  rw [readOn_cons, scanDirectives, consumeAll_cons]
  rfl

theorem readOn_tag (later : List (List Char)) (d : DirectiveSet)
    (h : tagAt (c :: cs) = some (tag, rest)) (hbytes : byteLength tag = tag.length) :
    readOn (c :: cs) later d = readOn rest later (parseTag (String.ofList tag) d) := by
  cases later with
  | nil => rw [readOn_final, readOn_final, scanDirectives_of_tagAt h hbytes]
  | cons m more => rw [readOn_cons, readOn_cons, scanDirectives_of_tagAt h hbytes]

theorem readOn_held (m : List Char) (more : List (List Char)) (d : DirectiveSet)
    (hpre : ['[', '['] <+: cur) (h : tagAt cur = none)
    (hshort : byteLength cur < maxPartialLen) :
    readOn cur (m :: more) d = readOn (cur ++ m) more d := by
  cases cur with
  | nil => exact readOn_nil_cons m more d
  | cons c cs =>
    rw [readOn_cons, scanDirectives_held hpre h hshort, consumeAll_cons]
    rfl

theorem readOn_literal (later : List (List Char)) (d : DirectiveSet)
    (h : tagAt (c :: cs) = none)
    (hlong : ['[', '['] <+: c :: cs → later = [] ∨ maxPartialLen ≤ byteLength (c :: cs)) :
    readOn (c :: cs) later d = (c :: (readOn cs later d).1, (readOn cs later d).2) := by
  cases later with
  | nil => rw [readOn_final, readOn_final, scanDirectives_literal h fun _ => .inl rfl]
  | cons m more =>
    rw [readOn_cons, readOn_cons, scanDirectives_literal h fun hpre =>
      .inr ((hlong hpre).resolve_left (List.cons_ne_nil m more))]
    rfl

/-! ### Tags and chunks -/

theorem tagAt_append (h : tagAt cur = some (tag, rest)) (w : List Char) :
    tagAt (cur ++ w) = some (tag, rest ++ w) := by
  rw [tagAt] at h ⊢
  split_ifs at h with hpre
  have hdrop : (cur ++ w).drop 2 = cur.drop 2 ++ w :=
    List.drop_append_of_le_length hpre.length_le
  rw [if_pos (hpre.trans (List.prefix_append cur w)), hdrop]
  exact splitOnce_append_right w h

/-- A tag of the text that is none of the chunk goes beyond the chunk. -/
theorem length_lt_of_tagAt {w : List Char} (hcur : tagAt cur = none)
    (h : tagAt (cur ++ w) = some (tag, rest)) : cur.length < tag.length + 4 := by
  by_contra hle
  have hsplit := eq_of_tagAt h
  have hpre : ['[', '['] ++ (tag ++ [']', ']']) <+: cur ++ w :=
    ⟨rest, by rw [hsplit]; simp⟩
  have hcur' := List.prefix_of_prefix_length_le hpre (List.prefix_append cur w) (by simp; omega)
  obtain ⟨t, ht⟩ := hcur'
  rw [tagAt, if_pos ⟨tag ++ [']', ']'] ++ t, by rw [← ht]; simp⟩,
    splitOnce_eq_none_iff (by simp)] at hcur
  refine hcur ⟨tag, t, ?_⟩
  rw [← ht]
  simp

/-- Without a closing bracket there is no tag. -/
theorem tagsFrom_of_not_infix (h : ¬ [']', ']'] <:+: cs.drop 2) : tagsFrom n 0 cs = [] := by
  induction cs generalizing n with
  | nil => rfl
  | cons c cs ih =>
    have hnone : tagAt (c :: cs) = none := by
      rw [tagAt, (splitOnce_eq_none_iff (by simp) _).2 h]
      split_ifs <;> rfl
    rw [tagsFrom_of_none hnone]
    refine ih fun hinf => h (hinf.trans ?_)
    rw [List.drop_succ_cons]
    exact ((List.drop_suffix_drop_left cs (Nat.le_succ 1))).isInfix

theorem position_le {t : ℕ × List Char} (k : ℕ) (h : t ∈ tagsFrom n k cs) : n ≤ t.1 := by
  induction cs generalizing n k with
  | nil => simp [tagsFrom] at h
  | cons c cs ih =>
    cases k with
    | succ k => exact (Nat.le_succ n).trans (ih k h)
    | zero =>
      rw [tagsFrom] at h
      split at h
      · rcases List.mem_cons.1 h with rfl | h
        · exact Nat.le_refl n
        · exact (Nat.le_succ n).trans (ih _ h)
      · exact (Nat.le_succ n).trans (ih 0 h)

theorem end_le {b : ℕ} (h : b ∈ chunkEnds n (cur :: later)) : n + cur.length ≤ b := by
  induction later generalizing n cur with
  | nil => simp [chunkEnds] at h
  | cons m more ih =>
    rw [chunkEnds] at h
    rcases List.mem_cons.1 h with rfl | h
    · exact Nat.le_refl _
    · have := ih h
      omega

/-- The ends depend on where the chunk ends, not on where it begins. -/
theorem chunkEnds_congr {n' : ℕ} {cur' : List Char} (h : n + cur.length = n' + cur'.length) :
    chunkEnds n (cur :: later) = chunkEnds n' (cur' :: later) := by
  cases later with
  | nil => rfl
  | cons m more => rw [chunkEnds, chunkEnds, h]

/-! ### Behind the first bracket of a tag -/

/-- As many bytes as characters. -/
def Ascii (cs : List Char) : Prop := byteLength cs = cs.length

theorem ascii_append_iff (a b : List Char) : Ascii (a ++ b) ↔ Ascii a ∧ Ascii b := by
  have ha := length_le_byteLength a
  have hb := length_le_byteLength b
  simp only [Ascii, byteLength_append, List.length_append]
  omega

/-- Scanning on inside a tag comes to the end of the tag: what stands behind it is read as it would
be otherwise. -/
theorem tagsFrom_inside {w : List Char}
    (h : splitOnce [']', ']'] (w ++ ([']', ']'] ++ rest)) = some (w, rest)) (hascii : Ascii w) :
    (visible 0 rest).length ≤ (visible 0 (w ++ ([']', ']'] ++ rest))).length ∧
      ∀ n, ∀ t ∈ tagsFrom n 0 (w ++ ([']', ']'] ++ rest)),
        Ascii t.2 ∨ ∃ m, t ∈ tagsFrom m 0 rest := by
  induction w with
  | nil =>
    have hnone : ∀ cs : List Char, tagAt (']' :: cs) = none := fun cs =>
      tagAt_cons_of_ne fun hpre => by simp at hpre
    constructor
    · rw [List.nil_append, List.cons_append, List.singleton_append, visible_of_none (hnone _),
        visible_of_none (hnone _), List.length_cons, List.length_cons]
      omega
    · intro n t ht
      rw [List.nil_append, List.cons_append, List.singleton_append, tagsFrom_of_none (hnone _),
        tagsFrom_of_none (hnone _)] at ht
      exact .inr ⟨_, ht⟩
  | cons c w ih =>
    have htail : splitOnce [']', ']'] (w ++ ([']', ']'] ++ rest)) = some (w, rest) := by
      rw [List.cons_append, splitOnce] at h
      split_ifs at h with hpre
      · simp at h
      · obtain ⟨r, hr, heq⟩ := Option.map_eq_some_iff.1 h
        obtain ⟨hfst, hsnd⟩ := Prod.mk.inj heq
        rw [hr, ← (List.cons.inj hfst).2, ← hsnd]
    obtain ⟨-, hascii'⟩ := (ascii_append_iff [c] w).1 hascii
    obtain ⟨hvisible, htags⟩ := ih htail hascii'
    rw [List.cons_append]
    cases htag : tagAt (c :: (w ++ ([']', ']'] ++ rest))) with
    | none =>
      refine ⟨?_, fun n t ht => ?_⟩
      · rw [visible_of_none htag, List.length_cons]
        omega
      · rw [tagsFrom_of_none htag] at ht
        exact htags _ t ht
    | some r =>
      obtain ⟨tag, rest'⟩ := r
      -- a tag that begins here has its second bracket here, too, and ends where the other one does
      have hinner : tag <:+ w ∧ rest' = rest := by
        rw [tagAt] at htag
        split_ifs at htag with hpre
        cases w with
        | nil => simp at hpre
        | cons c' w =>
          rw [List.cons_append, splitOnce] at htail
          split_ifs at htail with hpre'
          · simp at htail
          · obtain ⟨r, hr, heq⟩ := Option.map_eq_some_iff.1 htail
            obtain ⟨hfst, hsnd⟩ := Prod.mk.inj heq
            change splitOnce [']', ']'] (w ++ ([']', ']'] ++ rest)) = some (tag, rest') at htag
            rw [htag, Option.some.injEq] at hr
            rw [← hr] at hfst hsnd
            exact ⟨(List.cons.inj hfst).2 ▸ List.suffix_cons _ _, hsnd⟩
      obtain ⟨⟨front, hfront⟩, rfl⟩ := hinner
      refine ⟨?_, fun n t ht => ?_⟩
      · rw [visible_of_tagAt htag]
      · rw [tagsFrom_of_tagAt htag] at ht
        rcases List.mem_cons.1 ht with rfl | ht
        · rw [← hfront, ascii_append_iff] at hascii'
          exact .inl hascii'.2
        · exact .inr ⟨_, ht⟩

/-- Scanning on behind the first bracket of a tag. -/
theorem inside_of_tagAt (h : tagAt (c :: cs) = some (tag, rest)) (hascii : Ascii tag) :
    (visible 0 rest).length ≤ (visible 0 cs).length ∧
      ∀ n, ∀ t ∈ tagsFrom n 0 cs, Ascii t.2 ∨ ∃ m, t ∈ tagsFrom m 0 rest := by
  have hcs : cs = '[' :: tag ++ ([']', ']'] ++ rest) := (List.cons.inj (eq_of_tagAt h)).2
  have hsplit : splitOnce [']', ']'] ('[' :: tag ++ ([']', ']'] ++ rest)) =
      some ('[' :: tag, rest) := by
    rw [tagAt, hcs] at h
    split_ifs at h with hpre
    change splitOnce [']', ']'] (tag ++ ([']', ']'] ++ rest)) = some (tag, rest) at h
    rw [List.cons_append, splitOnce, if_neg (by simp), h]
    rfl
  rw [hcs]
  exact tagsFrom_inside hsplit ((ascii_append_iff ['['] tag).2 ⟨rfl, hascii⟩)

/-- The tags have as many bytes as characters. -/
def AsciiTags (text : List Char) : Prop := ∀ t ∈ tagsFrom 0 0 text, Ascii t.2

theorem contents_tagsFrom (n m k : ℕ) (cs : List Char) :
    (tagsFrom n k cs).map Prod.snd = (tagsFrom m k cs).map Prod.snd := by
  induction cs generalizing n m k with
  | nil => simp [tagsFrom]
  | cons c cs ih =>
    cases k with
    | succ k => exact ih _ _ k
    | zero =>
      cases h : tagAt (c :: cs) with
      | none =>
        rw [tagsFrom_of_none h, tagsFrom_of_none h]
        exact ih _ _ 0
      | some r =>
        obtain ⟨tag, rest⟩ := r
        rw [tagsFrom, tagsFrom, h]
        simp only [List.map_cons]
        rw [ih]

theorem asciiTags_iff (n : ℕ) : AsciiTags text ↔ ∀ t ∈ tagsFrom n 0 text, Ascii t.2 := by
  have hcontents : ∀ n, (∀ t ∈ tagsFrom n 0 text, Ascii t.2) ↔
      ∀ tag ∈ (tagsFrom n 0 text).map Prod.snd, Ascii tag := fun n => by
    rw [List.forall_mem_map]
  rw [AsciiTags, hcontents, hcontents, contents_tagsFrom]

/-! ### The chunks and the text -/

/-- What reading on comes to, next to what the text says. -/
structure Reading (n : ℕ) (cur : List Char) (later : List (List Char)) (d : DirectiveSet) :
    Prop where
  le : (visible 0 (cur ++ later.flatten)).length ≤ (readOn cur later d).1.length
  right : EndsWell (tagsFrom n 0 (cur ++ later.flatten)) (chunkEnds n (cur :: later)) →
    readOn cur later d =
      (visible 0 (cur ++ later.flatten), directivesOf (tagsFrom n 0 (cur ++ later.flatten)) d)
  wrong : ¬ EndsWell (tagsFrom n 0 (cur ++ later.flatten)) (chunkEnds n (cur :: later)) →
    (visible 0 (cur ++ later.flatten)).length < (readOn cur later d).1.length

theorem Reading.passed (h : tagAt (c :: cs) = some (tag, rest)) (hascii : Ascii tag)
    (hrest : Reading (n + tag.length + 4) rest later (parseTag (String.ofList tag) d)) :
    Reading n (c :: cs) later d := by
  have htext := tagAt_append h later.flatten
  have htags : tagsFrom n 0 (c :: cs ++ later.flatten) =
      (n, tag) :: tagsFrom (n + tag.length + 4) 0 (rest ++ later.flatten) := tagsFrom_of_tagAt htext
  have hlength : (c :: cs).length = tag.length + 4 + rest.length := by
    rw [eq_of_tagAt h]
    simp
    omega
  have hends : chunkEnds n ((c :: cs) :: later) =
      chunkEnds (n + tag.length + 4) (rest :: later) := chunkEnds_congr (by omega)
  have hwell : EndsWell (tagsFrom n 0 (c :: cs ++ later.flatten))
      (chunkEnds n ((c :: cs) :: later)) ↔
      EndsWell (tagsFrom (n + tag.length + 4) 0 (rest ++ later.flatten))
        (chunkEnds (n + tag.length + 4) (rest :: later)) := by
    rw [hends, htags]
    refine ⟨fun hall t ht => hall t (List.mem_cons_of_mem _ ht), fun hall t ht b hb => ?_⟩
    rcases List.mem_cons.1 ht with rfl | ht
    · intro _ hlt
      have := end_le hb
      simp only at hlt
      omega
    · exact hall t ht b hb
  have hvisible : visible 0 (c :: cs ++ later.flatten) = visible 0 (rest ++ later.flatten) :=
    visible_of_tagAt htext
  have hread := readOn_tag later d h hascii
  constructor
  · rw [hvisible, hread]
    exact hrest.le
  · intro hends'
    rw [hread, hrest.right (hwell.1 hends'), hvisible, htags, directivesOf_cons]
  · intro hends'
    rw [hvisible, hread]
    exact hrest.wrong fun h => hends' (hwell.2 h)

/-- A character of the text is shown. -/
theorem Reading.literal (h : tagAt (c :: cs ++ later.flatten) = none)
    (hread : readOn (c :: cs) later d = (c :: (readOn cs later d).1, (readOn cs later d).2))
    (hrest : Reading (n + 1) cs later d) : Reading n (c :: cs) later d := by
  have hends : chunkEnds n ((c :: cs) :: later) = chunkEnds (n + 1) (cs :: later) :=
    chunkEnds_congr (by rw [List.length_cons]; omega)
  have htags : tagsFrom n 0 (c :: cs ++ later.flatten) =
      tagsFrom (n + 1) 0 (cs ++ later.flatten) := tagsFrom_of_none h
  have hvisible : visible 0 (c :: cs ++ later.flatten) = c :: visible 0 (cs ++ later.flatten) :=
    visible_of_none h
  constructor
  · rw [hvisible, hread, List.length_cons, List.length_cons]
    exact Nat.succ_le_succ hrest.le
  · intro hwell
    rw [htags, hends] at hwell
    rw [hread, hrest.right hwell, hvisible, htags]
  · intro hwell
    rw [htags, hends] at hwell
    rw [hvisible, hread, List.length_cons, List.length_cons]
    exact Nat.succ_lt_succ (hrest.wrong hwell)

/-- The beginning of a tag is held back. -/
theorem Reading.held {m : List Char} {more : List (List Char)} (hpre : ['[', '['] <+: cur)
    (h : tagAt cur = none) (hshort : byteLength cur < maxPartialLen)
    (hrest : Reading n (cur ++ m) more d) : Reading n cur (m :: more) d := by
  have htext : cur ++ (m :: more).flatten = cur ++ m ++ more.flatten := by
    rw [List.flatten_cons, List.append_assoc]
  have hends : chunkEnds n (cur :: m :: more) =
      (n + cur.length) :: chunkEnds n ((cur ++ m) :: more) := by
    rw [chunkEnds]
    congr 1
    exact chunkEnds_congr (by rw [List.length_append]; omega)
  have hfirst : ∀ t ∈ tagsFrom n 0 (cur ++ m ++ more.flatten), t.1 < n + cur.length →
      n + cur.length < t.1 + t.2.length + 4 →
        t.1 + 2 ≤ n + cur.length ∧ n + cur.length < t.1 + maxPartialLen := by
    intro t ht hlt hlt'
    obtain ⟨c, cs, rfl⟩ : ∃ c cs, cur = c :: cs := by
      cases cur with
      | nil => simp at hpre
      | cons c cs => exact ⟨c, cs, rfl⟩
    rw [List.append_assoc] at ht
    cases htag : tagAt (c :: cs ++ (m ++ more.flatten)) with
    | none =>
      have hno : tagsFrom n 0 (c :: cs ++ (m ++ more.flatten)) = [] := by
        refine tagsFrom_of_not_infix ?_
        rw [tagAt, if_pos (hpre.trans (List.prefix_append _ _)),
          splitOnce_eq_none_iff (by simp)] at htag
        exact htag
      rw [hno] at ht
      exact absurd ht List.not_mem_nil
    | some r =>
      obtain ⟨tag, rest⟩ := r
      have hlength := length_lt_of_tagAt h htag
      rw [List.cons_append] at ht htag
      rw [tagsFrom_of_tagAt htag] at ht
      rcases List.mem_cons.1 ht with rfl | ht
      · have := hpre.length_le
        have := length_le_byteLength (c :: cs)
        simp only [List.length_cons, List.length_nil] at *
        omega
      · have := position_le 0 ht
        omega
  have hwell : EndsWell (tagsFrom n 0 (cur ++ m ++ more.flatten))
      (chunkEnds n (cur :: m :: more)) ↔
      EndsWell (tagsFrom n 0 (cur ++ m ++ more.flatten)) (chunkEnds n ((cur ++ m) :: more)) := by
    rw [hends]
    refine ⟨fun hall t ht b hb => hall t ht b (List.mem_cons_of_mem _ hb),
      fun hall t ht b hb => ?_⟩
    rcases List.mem_cons.1 hb with rfl | hb
    · exact hfirst t ht
    · exact hall t ht b hb
  have hread := readOn_held m more d hpre h hshort
  constructor
  · rw [htext, hread]
    exact hrest.le
  · intro hends'
    rw [htext] at hends' ⊢
    rw [hread]
    exact hrest.right (hwell.1 hends')
  · intro hends'
    rw [htext] at hends' ⊢
    rw [hread]
    exact hrest.wrong fun h => hends' (hwell.2 h)

/-- A chunk that ends inside a tag, and is not held back, has its character shown: nothing shown
later makes up for it. -/
theorem Reading.broken {m : List Char} {more : List (List Char)}
    (hcur : tagAt (c :: cs) = none)
    (hlong : ['[', '['] <+: c :: cs → maxPartialLen ≤ byteLength (c :: cs))
    (h : tagAt (c :: cs ++ (m :: more).flatten) = some (tag, rest)) (hascii : Ascii tag)
    (hrest : (visible 0 (cs ++ (m :: more).flatten)).length ≤
      (readOn cs (m :: more) d).1.length)
    (hinside : (visible 0 rest).length ≤ (visible 0 (cs ++ (m :: more).flatten)).length) :
    Reading n (c :: cs) (m :: more) d := by
  have hread := readOn_literal (m :: more) d hcur fun hpre => .inr (hlong hpre)
  have hvisible : visible 0 (c :: cs ++ (m :: more).flatten) = visible 0 rest := visible_of_tagAt h
  have hlt : (visible 0 (c :: cs ++ (m :: more).flatten)).length <
      (readOn (c :: cs) (m :: more) d).1.length := by
    rw [hvisible, hread, List.length_cons]
    omega
  refine ⟨hlt.le, fun hwell => ?_, fun _ => hlt⟩
  have hlength := length_lt_of_tagAt hcur h
  have htags : tagsFrom n 0 (c :: cs ++ (m :: more).flatten) =
      (n, tag) :: tagsFrom (n + tag.length + 4) 0 rest := tagsFrom_of_tagAt h
  have hin := hwell (n, tag) (by rw [htags]; exact List.mem_cons_self)
    (n + (c :: cs).length) (by rw [chunkEnds]; exact List.mem_cons_self)
    (by rw [List.length_cons]; simp only; omega) (by simp only; omega)
  simp only at hin
  -- what the chunk has of the tag is as long in bytes as in characters
  have hpre : c :: cs <+: ['[', '['] ++ (tag ++ [']', ']']) := by
    refine List.prefix_of_prefix_length_le (List.prefix_append (c :: cs) (m :: more).flatten)
      ⟨rest, ?_⟩ ?_
    rotate_left
    · simp only [List.length_append, List.length_cons, List.length_nil] at *
      omega
    rw [eq_of_tagAt h]
    simp
  have hbytes : Ascii (c :: cs) := by
    obtain ⟨w, hw⟩ := hpre
    have hall : Ascii (['[', '['] ++ (tag ++ [']', ']'])) :=
      (ascii_append_iff _ _).2 ⟨rfl, (ascii_append_iff _ _).2 ⟨hascii, rfl⟩⟩
    rw [← hw] at hall
    exact ((ascii_append_iff _ _).1 hall).1
  have hopen : ['[', '['] <+: c :: cs :=
    List.prefix_of_prefix_length_le ⟨_, rfl⟩ hpre (by
      simp only [List.length_cons, List.length_nil] at *
      omega)
  have := hlong hopen
  rw [hbytes] at this
  omega

theorem Reading.empty : Reading n [] [] d :=
  ⟨Nat.le_refl 0, fun _ => rfl, fun h => absurd (fun _ ht => absurd ht List.not_mem_nil) h⟩

/-- Behind the end of a chunk the next one is read. -/
theorem Reading.next {m : List Char} {more : List (List Char)} (hrest : Reading n m more d) :
    Reading n [] (m :: more) d := by
  have hwell : EndsWell (tagsFrom n 0 (m ++ more.flatten)) (chunkEnds n ([] :: m :: more)) ↔
      EndsWell (tagsFrom n 0 (m ++ more.flatten)) (chunkEnds n (m :: more)) := by
    rw [chunkEnds, List.length_nil, Nat.add_zero]
    refine ⟨fun hall t ht b hb => hall t ht b (List.mem_cons_of_mem _ hb),
      fun hall t ht b hb => ?_⟩
    rcases List.mem_cons.1 hb with rfl | hb
    · intro hlt
      exact absurd (position_le 0 ht) (Nat.not_le_of_lt hlt)
    · exact hall t ht b hb
  have hread := readOn_nil_cons m more d
  constructor
  · rw [List.nil_append, List.flatten_cons, hread]
    exact hrest.le
  · intro hends
    rw [List.nil_append, List.flatten_cons] at hends ⊢
    rw [hread]
    exact hrest.right (hwell.1 hends)
  · intro hends
    rw [List.nil_append, List.flatten_cons] at hends ⊢
    rw [hread]
    exact hrest.wrong fun h => hends (hwell.2 h)

/-- The chunks of a text whose tags have as many bytes as characters. -/
theorem reading (n : ℕ) (cur : List Char) (later : List (List Char)) (d : DirectiveSet)
    (hascii : AsciiTags (cur ++ later.flatten)) : Reading n cur later d := by
  induction hN : (cur ++ later.flatten).length + later.length using Nat.strong_induction_on
    generalizing n cur later d with
  | _ N ih =>
    subst hN
    cases cur with
    | nil =>
      cases later with
      | nil => exact Reading.empty
      | cons m more =>
        refine Reading.next (ih _ ?_ n m more d hascii rfl)
        rw [List.nil_append, List.flatten_cons, List.length_cons]
        omega
    | cons c cs =>
      cases h : tagAt (c :: cs) with
      | some r =>
        obtain ⟨tag, rest⟩ := r
        have htags : ∀ n, tagsFrom n 0 (c :: cs ++ later.flatten) =
            (n, tag) :: tagsFrom (n + tag.length + 4) 0 (rest ++ later.flatten) := fun n =>
          tagsFrom_of_tagAt (tagAt_append h later.flatten)
        have hall := (asciiTags_iff 0).1 hascii
        rw [htags] at hall
        refine Reading.passed h (hall _ List.mem_cons_self) (ih _ ?_ _ rest later _ ?_ rfl)
        · rw [eq_of_tagAt h]
          simp only [List.length_append, List.length_cons]
          omega
        · exact (asciiTags_iff _).2 fun t ht => hall t (List.mem_cons_of_mem _ ht)
      | none =>
        by_cases hheld : ['[', '['] <+: c :: cs ∧ byteLength (c :: cs) < maxPartialLen ∧
            later ≠ []
        · obtain ⟨hpre, hshort, hlater⟩ := hheld
          obtain ⟨m, more, rfl⟩ := List.exists_cons_of_ne_nil hlater
          refine Reading.held hpre h hshort (ih _ ?_ n _ more d ?_ rfl)
          · simp only [List.flatten_cons, List.length_append, List.length_cons]
            omega
          · rw [List.append_assoc]
            exact hascii
        · have hlong : ['[', '['] <+: c :: cs →
              later = [] ∨ maxPartialLen ≤ byteLength (c :: cs) := by
            intro hpre
            by_cases hlater : later = []
            · exact .inl hlater
            · exact .inr (Nat.le_of_not_lt fun hshort => hheld ⟨hpre, hshort, hlater⟩)
          have hsmall : (cs ++ later.flatten).length + later.length <
              (c :: cs ++ later.flatten).length + later.length := by
            rw [List.cons_append, List.length_cons]
            omega
          cases htext : tagAt (c :: cs ++ later.flatten) with
          | none =>
            refine Reading.literal htext (readOn_literal later d h hlong)
              (ih _ hsmall _ cs later d ?_ rfl)
            refine (asciiTags_iff 1).2 fun t ht => hascii t ?_
            have htags : tagsFrom 0 0 (c :: cs ++ later.flatten) =
                tagsFrom 1 0 (cs ++ later.flatten) := tagsFrom_of_none htext
            rw [htags]
            exact ht
          | some r =>
            obtain ⟨tag, rest⟩ := r
            have htags : tagsFrom 0 0 (c :: cs ++ later.flatten) =
                (0, tag) :: tagsFrom (0 + tag.length + 4) 0 rest := tagsFrom_of_tagAt htext
            have hall := (asciiTags_iff 0).1 hascii
            rw [htags] at hall
            have htag : Ascii tag := hall _ List.mem_cons_self
            obtain ⟨hvisible, hinner⟩ := inside_of_tagAt htext htag
            have hrest : AsciiTags rest :=
              (asciiTags_iff _).2 fun t ht => hall t (List.mem_cons_of_mem _ ht)
            have hcs : AsciiTags (cs ++ later.flatten) := by
              intro t ht
              rcases hinner 0 t ht with hascii' | ⟨m, hm⟩
              · exact hascii'
              · exact (asciiTags_iff m).1 hrest t hm
            cases later with
            | nil =>
              rw [List.flatten_nil, List.append_nil, h] at htext
              cases htext
            | cons m more =>
              have hlong' := fun hpre => (hlong hpre).resolve_left (List.cons_ne_nil m more)
              exact Reading.broken h hlong' htext htag
                (ih _ hsmall (n + 1) cs (m :: more) d hcs rfl).le hvisible

/-! ### The whole text -/

theorem consumeFinal_eq (k : ℕ) (cs : List Char) (d : DirectiveSet) :
    consumeFinal k cs d =
      ((scanDirectives true k cs d).1, (scanDirectives true k cs d).2.directives) := by
  induction cs generalizing k d with
  | nil => cases k <;> rfl
  | cons c cs ih =>
    cases k with
    | succ k => exact ih k d
    | zero =>
      rw [consumeFinal, scanDirectives]
      by_cases hpre : ['[', '['] <+: c :: cs
      · rw [if_pos hpre, if_pos hpre]
        cases splitOnce [']', ']'] ((c :: cs).drop 2) with
        | some r => exact ih _ _
        | none =>
          dsimp only
          rw [ih, if_neg (by simp)]
      · rw [if_neg hpre, if_neg hpre]
        dsimp only
        rw [ih]

theorem parseDirectives_eq (text : List Char) :
    (parseDirectives (String.ofList text)).2 = (readOn text [] {}).2 := by
  rw [parseDirectives, String.toList_ofList, consumeFinal_eq, readOn_final]

/-- Of a text whose tags have as many bytes as characters, exactly the chunks that end well are read
as the text. -/
theorem readsRight_of_ascii {chunks : List (List Char)} (h : AsciiTags chunks.flatten) :
    ReadsRight chunks ↔ EndsWell (tagsFrom 0 0 chunks.flatten) (chunkEnds 0 chunks) := by
  cases chunks with
  | nil =>
    refine ⟨fun _ t ht => absurd ht List.not_mem_nil, fun _ => ⟨rfl, rfl, ?_⟩⟩
    decide
  | cons chunk later =>
    have hread := reading 0 chunk later {} h
    have hall : consumeAll {} (chunk :: later) = readOn chunk later {} :=
      consumeAll_cons [] chunk later {}
    have hwhole := reading 0 (chunk ++ later.flatten) [] {}
      (by rwa [List.flatten_nil, List.append_nil])
    have hparse : (parseDirectives (String.ofList (chunk ++ later.flatten))).2 =
        directivesOf (tagsFrom 0 0 (chunk ++ later.flatten)) {} := by
      rw [parseDirectives_eq, hwhole.right fun t _ b hb => absurd hb List.not_mem_nil,
        List.flatten_nil, List.append_nil]
    rw [List.flatten_cons]
    constructor
    · intro hright
      by_contra hends
      have hshown := congrArg List.length hright.shows
      rw [hall, List.flatten_cons] at hshown
      exact absurd hshown (hread.wrong hends).ne'
    · intro hends
      have hright := hread.right hends
      refine ⟨?_, ?_, ?_⟩
      · rw [hall, hright, List.flatten_cons]
      · rw [hall, hright, List.flatten_cons]
      · rw [List.flatten_cons, hparse]

/-- One character at a time, no tag is seen. -/
theorem consumeAll_singletons (text : List Char) (d : DirectiveSet) :
    consumeAll ⟨[], d⟩ (text.map fun c => [c]) = (text, d) := by
  induction text with
  | nil => rfl
  | cons c text ih =>
    have hscan : ∀ isFinal, scanDirectives isFinal 0 [c] d = ([c], ⟨[], d⟩) := fun isFinal =>
      scanDirectives_literal (tagAt_cons_of_ne (by simp)) fun hpre => by simp at hpre
    rw [List.map_cons, consumeAll, consume]
    simp only [List.nil_append, hscan, List.append_nil, ite_self, ih]
    rfl

theorem length_visible_le (k : ℕ) (cs : List Char) : (visible k cs).length ≤ cs.length := by
  induction cs generalizing k with
  | nil => simp [visible]
  | cons c cs ih =>
    cases k with
    | succ k => exact (ih k).trans (Nat.le_succ _)
    | zero =>
      cases h : tagAt (c :: cs) with
      | none =>
        rw [visible_of_none h]
        exact Nat.succ_le_succ (ih 0)
      | some r =>
        rw [visible, h]
        exact (ih _).trans (Nat.le_succ _)

/-- A text with a tag is longer than what is to be shown of it. -/
theorem length_visible_lt (h : tagsFrom n 0 text ≠ []) :
    (visible 0 text).length < text.length := by
  induction text generalizing n with
  | nil => exact absurd rfl h
  | cons c cs ih =>
    cases htag : tagAt (c :: cs) with
    | none =>
      rw [tagsFrom_of_none htag] at h
      rw [visible_of_none htag]
      exact Nat.succ_lt_succ (ih h)
    | some r =>
      rw [visible, htag]
      exact Nat.lt_succ_of_le (length_visible_le _ cs)

/-- A text whose tags have as many bytes as characters is read right in exactly the chunks that end
well, and any text in every choice of chunks exactly when it has no tag. -/
theorem readsRight_iff (text : List Char) :
    (AsciiTags text → ∀ chunks : List (List Char), chunks.flatten = text →
      (ReadsRight chunks ↔ EndsWell (tagsFrom 0 0 text) (chunkEnds 0 chunks))) ∧
    ((∀ chunks : List (List Char), chunks.flatten = text → ReadsRight chunks) ↔
      tagsFrom 0 0 text = []) := by
  refine ⟨?_, fun hall => ?_, fun hnone => ?_⟩
  · rintro h chunks rfl
    exact readsRight_of_ascii h
  · by_contra hsome
    have hflat : (text.map fun c => [c]).flatten = text := by
      rw [← List.flatMap_def, List.flatMap_singleton']
    have hshows := (hall _ hflat).shows
    rw [hflat, consumeAll_singletons] at hshows
    exact absurd (congrArg List.length hshows) (length_visible_lt hsome).ne'
  · rintro chunks rfl
    rw [readsRight_of_ascii (by rw [AsciiTags, hnone]; simp), hnone]
    exact fun t ht => absurd ht List.not_mem_nil

/-- The chunks of "Hello [[reply:xyz]] world" that the source's test has. -/
theorem readsRight_splitReply :
    ReadsRight ["Hello [[re".toList, "ply:xyz]] world".toList] :=
  ((readsRight_iff "Hello [[reply:xyz]] world".toList).1 (by unfold AsciiTags Ascii; decide)
    ["Hello [[re".toList, "ply:xyz]] world".toList] (by decide)).2 (by unfold EndsWell; decide)

/-- A letter of two bytes in a tag takes the letter behind the tag with it. -/
theorem not_readsRight_accentedTag : ¬ ReadsRight ["[[reply:\u00e9]]!".toList] := fun h =>
  absurd h.shows (by decide)

end LoopText
end RustyHand
