import Mathlib.Data.List.Basic
import Mathlib.Data.Nat.Notation

/-!
# Lossy decoding of UTF-8

Bytes decoded to characters, with a replacement character for every maximal sequence that cannot be
part of one.  At the end there may be bytes that begin a character; they are left.

* `front`: the character in front of some bytes, or what is wrong with it;
* `decode`: the characters, and the bytes that are left;
* `decode_append`: what is appended goes on with the bytes that are left;
* `exists_lossy`, `truncated_left`: what is decoded, and what is left.
-/

namespace Utf8

/-- U+FFFD. -/
def replacement : Char := '�'

/-- The ranges of the bytes that follow a first byte, if it is one. -/
def following (a : ℕ) : Option (List (ℕ × ℕ)) :=
  if a < 0x80 then some []
  else if a < 0xC2 then none
  else if a < 0xE0 then some [(0x80, 0xBF)]
  else if a = 0xE0 then some [(0xA0, 0xBF), (0x80, 0xBF)]
  else if a = 0xED then some [(0x80, 0x9F), (0x80, 0xBF)]
  else if a < 0xF0 then some [(0x80, 0xBF), (0x80, 0xBF)]
  else if a = 0xF0 then some [(0x90, 0xBF), (0x80, 0xBF), (0x80, 0xBF)]
  else if a < 0xF4 then some [(0x80, 0xBF), (0x80, 0xBF), (0x80, 0xBF)]
  else if a = 0xF4 then some [(0x80, 0x8F), (0x80, 0xBF), (0x80, 0xBF)]
  else none

/-- What a first byte gives to the code point of a character. -/
def leading (a : ℕ) : ℕ :=
  if a < 0x80 then a else if a < 0xE0 then a - 0xC0 else if a < 0xF0 then a - 0xE0 else a - 0xF0

/-- The code point, six bits a byte. -/
def codePoint (a : ℕ) (tail : List UInt8) : ℕ :=
  tail.foldl (fun n b => n * 64 + (b.toNat - 0x80)) (leading a)

/-- The bytes that follow a first byte. -/
inductive Tail
  | whole (tail rest : List UInt8)
  | broken (rest : List UInt8)
  | missing

/-- The bytes in the ranges, one in each. -/
def takeTail : List (ℕ × ℕ) → List UInt8 → List UInt8 → Tail
  | [], taken, bytes => .whole taken bytes
  | _ :: _, _, [] => .missing
  | range :: ranges, taken, b :: bytes =>
    if range.1 ≤ b.toNat ∧ b.toNat ≤ range.2 then takeTail ranges (taken ++ [b]) bytes
    else .broken (b :: bytes)

/-- What stands in front of some bytes: a character, a sequence that is none, or the beginning of
one. -/
inductive Front
  | char (c : Char) (rest : List UInt8)
  | invalid (rest : List UInt8)
  | incomplete

/-- The front of `a :: bytes`. -/
def front (a : UInt8) (bytes : List UInt8) : Front :=
  match following a.toNat with
  | none => .invalid bytes
  | some ranges =>
    match takeTail ranges [] bytes with
    | .whole tail rest => .char (Char.ofNat (codePoint a.toNat tail)) rest
    | .broken rest => .invalid rest
    | .missing => .incomplete

/-- The character that is decoded in front, and the bytes behind it. -/
def Front.decoded : Front → Option (Char × List UInt8)
  | char c rest => some (c, rest)
  | invalid rest => some (replacement, rest)
  | incomplete => none

/-! ### What a front depends on -/

/-- What is found in some bytes is found by the bytes that are used, and by the byte behind them if
it is the one that breaks off. -/
theorem takeTail_used (ranges : List (ℕ × ℕ)) (taken bytes : List UInt8) :
    match takeTail ranges taken bytes with
    | .whole tail rest =>
      ∃ used, bytes = used ++ rest ∧
        ∀ other, takeTail ranges taken (used ++ other) = .whole tail other
    | .broken rest =>
      ∃ used b behind, bytes = used ++ rest ∧ rest = b :: behind ∧
        takeTail ranges taken used = .missing ∧
        ∀ other, takeTail ranges taken (used ++ b :: other) = .broken (b :: other)
    | .missing => True := by
  induction ranges generalizing taken bytes with
  | nil => exact ⟨[], rfl, fun _ => rfl⟩
  | cons range ranges ih =>
    cases bytes with
    | nil => trivial
    | cons b bytes =>
      rw [takeTail]
      split_ifs with hb
      · have hrest := ih (taken ++ [b]) bytes
        cases h : takeTail ranges (taken ++ [b]) bytes with
        | whole tail rest =>
          rw [h] at hrest
          obtain ⟨used, rfl, hused⟩ := hrest
          refine ⟨b :: used, rfl, fun other => ?_⟩
          rw [List.cons_append, takeTail, if_pos hb, hused]
        | broken rest =>
          rw [h] at hrest
          obtain ⟨used, b', behind, rfl, hrest, hmissing, hused⟩ := hrest
          refine ⟨b :: used, b', behind, rfl, hrest, ?_, fun other => ?_⟩
          · rw [takeTail, if_pos hb, hmissing]
          · rw [List.cons_append, takeTail, if_pos hb, hused]
        | missing => trivial
      · refine ⟨[], b, bytes, rfl, rfl, rfl, fun other => ?_⟩
        rw [List.nil_append, takeTail, if_neg hb]

theorem front_char_used {a : UInt8} {bytes rest : List UInt8} {c : Char}
    (h : front a bytes = .char c rest) :
    ∃ used, bytes = used ++ rest ∧ ∀ other, front a (used ++ other) = .char c other := by
  unfold front at h ⊢
  cases hfollowing : following a.toNat with
  | none =>
    rw [hfollowing] at h
    exact nomatch h
  | some ranges =>
    rw [hfollowing] at h
    dsimp only at h ⊢
    have htail := takeTail_used ranges [] bytes
    cases htaken : takeTail ranges [] bytes with
    | whole tail rest' =>
      rw [htaken] at h htail
      obtain ⟨rfl, rfl⟩ := Front.char.inj h
      obtain ⟨used, hbytes, hused⟩ := htail
      exact ⟨used, hbytes, fun other => by rw [hused]⟩
    | broken _ | missing =>
      rw [htaken] at h
      exact nomatch h

/-- A sequence that is none is found by the bytes that are used, and by the byte behind them; if
none are left there, it is only incomplete. -/
theorem front_invalid_used {a : UInt8} {bytes rest : List UInt8}
    (h : front a bytes = .invalid rest) :
    ∃ used, bytes = used ++ rest ∧
      (∀ more, front a (used ++ (rest ++ more)) = .invalid (rest ++ more)) ∧
      ∀ other, other <+: rest →
        front a (used ++ other) = .invalid other ∨ other = [] ∧ front a used = .incomplete := by
  unfold front at h ⊢
  cases hfollowing : following a.toNat with
  | none =>
    rw [hfollowing] at h
    obtain rfl := Front.invalid.inj h
    exact ⟨[], rfl, fun _ => rfl, fun _ _ => .inl rfl⟩
  | some ranges =>
    rw [hfollowing] at h
    dsimp only at h ⊢
    have htail := takeTail_used ranges [] bytes
    cases htaken : takeTail ranges [] bytes with
    | whole _ _ | missing =>
      rw [htaken] at h
      exact nomatch h
    | broken rest' =>
      rw [htaken] at h htail
      obtain rfl := Front.invalid.inj h
      obtain ⟨used, b, behind, hbytes, rfl, hmissing, hused⟩ := htail
      refine ⟨used, hbytes, fun more => by rw [List.cons_append, hused], fun other hother => ?_⟩
      cases other with
      | nil => exact .inr ⟨rfl, by rw [hmissing]⟩
      | cons b' other =>
        obtain ⟨rfl, -⟩ := List.cons_prefix_cons.1 hother
        exact .inl (by rw [hused])

/-- Behind the bytes that are used others may stand, more or fewer; but when none are left there, a
sequence that was broken off is only incomplete. -/
theorem decoded_used {a : UInt8} {bytes rest : List UInt8} {c : Char}
    (h : (front a bytes).decoded = some (c, rest)) :
    ∃ used, bytes = used ++ rest ∧
      (∀ more, (front a (used ++ (rest ++ more))).decoded = some (c, rest ++ more)) ∧
      ∀ other, other <+: rest → (front a (used ++ other)).decoded = some (c, other) ∨
        other = [] ∧ c = replacement ∧ (front a used).decoded = none := by
  cases hfront : front a bytes with
  | char c' rest' =>
    rw [hfront] at h
    obtain ⟨rfl, rfl⟩ := Prod.mk.inj (Option.some.inj h)
    obtain ⟨used, hbytes, hused⟩ := front_char_used hfront
    exact ⟨used, hbytes, fun more => by rw [hused]; rfl, fun other _ => .inl (by rw [hused]; rfl)⟩
  | invalid rest' =>
    rw [hfront] at h
    obtain ⟨rfl, rfl⟩ := Prod.mk.inj (Option.some.inj h)
    obtain ⟨used, hbytes, hmore, hfewer⟩ := front_invalid_used hfront
    refine ⟨used, hbytes, fun more => by rw [hmore]; rfl, fun other hother => ?_⟩
    rcases hfewer other hother with hother | ⟨hnil, hincomplete⟩
    · exact .inl (by rw [hother]; rfl)
    · exact .inr ⟨hnil, rfl, by rw [hincomplete]; rfl⟩
  | incomplete =>
    rw [hfront] at h
    exact nomatch h

theorem decoded_suffix {a : UInt8} {bytes rest : List UInt8} {c : Char}
    (h : (front a bytes).decoded = some (c, rest)) : rest <:+ bytes := by
  obtain ⟨used, hbytes, -⟩ := decoded_used h
  exact ⟨used, hbytes.symm⟩

theorem decoded_append {a : UInt8} {bytes rest : List UInt8} {c : Char}
    (h : (front a bytes).decoded = some (c, rest)) (more : List UInt8) :
    (front a (bytes ++ more)).decoded = some (c, rest ++ more) := by
  obtain ⟨used, rfl, hused, -⟩ := decoded_used h
  rw [List.append_assoc, hused]

/-! ### Decoding -/

/-- The characters of some bytes, and the bytes that are left at the end. -/
def decode : List UInt8 → List Char × List UInt8
  | [] => ([], [])
  | a :: bytes =>
    match _h : (front a bytes).decoded with
    | some (c, rest) => (c :: (decode rest).1, (decode rest).2)
    | none => ([], a :: bytes)
termination_by bytes => bytes.length
decreasing_by
  all_goals exact Nat.lt_succ_of_le (decoded_suffix _h).length_le

theorem decode_of_some {a : UInt8} {bytes rest : List UInt8} {c : Char}
    (h : (front a bytes).decoded = some (c, rest)) :
    decode (a :: bytes) = (c :: (decode rest).1, (decode rest).2) := by
  rw [decode]
  split
  · rename_i heq
    rw [h] at heq
    obtain ⟨rfl, rfl⟩ := Prod.mk.inj (Option.some.inj heq)
    rfl
  · rename_i heq
    rw [h] at heq
    exact nomatch heq

theorem decode_of_none {a : UInt8} {bytes : List UInt8} (h : (front a bytes).decoded = none) :
    decode (a :: bytes) = ([], a :: bytes) := by
  rw [decode]
  split
  · rename_i heq
    rw [h] at heq
    exact nomatch heq
  · rfl

/-- Decoding, a character at a time. -/
theorem decode_induction {motive : List UInt8 → Prop} (nil : motive [])
    (some : ∀ a bytes c rest, (front a bytes).decoded = Option.some (c, rest) → motive rest →
      motive (a :: bytes))
    (none : ∀ a bytes, (front a bytes).decoded = Option.none → motive (a :: bytes))
    (bytes : List UInt8) : motive bytes := by
  induction hn : bytes.length using Nat.strongRecOn generalizing bytes with
  | ind n ih =>
    cases bytes with
    | nil => exact nil
    | cons a bytes =>
      cases h : (front a bytes).decoded with
      | none => exact none a bytes h
      | some decoded =>
        obtain ⟨c, rest⟩ := decoded
        have hlen := (decoded_suffix h).length_le
        rw [List.length_cons] at hn
        exact some a bytes c rest h (ih rest.length (by omega) rest rfl)

theorem decode_append (bytes more : List UInt8) :
    decode (bytes ++ more) =
      ((decode bytes).1 ++ (decode ((decode bytes).2 ++ more)).1,
        (decode ((decode bytes).2 ++ more)).2) := by
  induction bytes using decode_induction with
  | nil => simp [decode]
  | some a bytes c rest h ih =>
    rw [List.cons_append, decode_of_some (decoded_append h more), decode_of_some h, ih]
    rfl
  | none a bytes h =>
    rw [decode_of_none h]
    rfl

/-- The lossy decoding of all bytes: those that are left at the end are replaced, too. -/
def lossy (bytes : List UInt8) : List Char :=
  (decode bytes).1 ++ if (decode bytes).2 = [] then [] else [replacement]

/-- The characters are the lossy decoding of the bytes before those that are left. -/
theorem exists_lossy (bytes : List UInt8) :
    ∃ whole, bytes = whole ++ (decode bytes).2 ∧ lossy whole = (decode bytes).1 := by
  induction bytes using decode_induction with
  | nil => exact ⟨[], by simp [decode], by simp [lossy, decode]⟩
  | some a bytes c rest h ih =>
    obtain ⟨whole, hrest, hlossy⟩ := ih
    obtain ⟨used, rfl, -, hfewer⟩ := decoded_used h
    refine ⟨a :: (used ++ whole), ?_, ?_⟩
    · rw [decode_of_some h, List.cons_append, List.append_assoc, ← hrest]
    · rw [decode_of_some h, ← hlossy]
      rcases hfewer whole ⟨_, hrest.symm⟩ with hwhole | ⟨rfl, rfl, hnone⟩
      · rw [lossy, decode_of_some hwhole]
        rfl
      · rw [List.append_nil, lossy, decode_of_none hnone]
        simp [lossy, decode]
  | none a bytes h =>
    rw [decode_of_none h]
    exact ⟨[], rfl, by simp [lossy, decode]⟩

/-! ### Truncated characters -/

theorem toNat_ofNat {n : ℕ} (h : n < 256) : (UInt8.ofNat n).toNat = n := by
  rw [UInt8.toNat_ofNat']
  exact Nat.mod_eq_of_lt h

/-- The bytes begin a character, and others would make it whole. -/
def Truncated (left : List UInt8) : Prop :=
  ∃ a bytes more c, left = a :: bytes ∧ more ≠ [] ∧ front a (bytes ++ more) = .char c []

theorem following_ranges {a : ℕ} {ranges : List (ℕ × ℕ)} (h : following a = some ranges) :
    ∀ range ∈ ranges, range.1 ≤ range.2 ∧ range.2 < 256 := by
  unfold following at h
  split_ifs at h <;> obtain rfl := Option.some.inj h <;> simp

/-- Bytes that are missing can be given. -/
theorem takeTail_completion {ranges : List (ℕ × ℕ)} {taken bytes : List UInt8}
    (hranges : ∀ range ∈ ranges, range.1 ≤ range.2 ∧ range.2 < 256)
    (h : takeTail ranges taken bytes = .missing) :
    ∃ more tail, more ≠ [] ∧ takeTail ranges taken (bytes ++ more) = .whole tail [] := by
  induction ranges generalizing taken bytes with
  | nil => exact nomatch h
  | cons range ranges ih =>
    obtain ⟨⟨hle, hlt⟩, hrest⟩ := List.forall_mem_cons.1 hranges
    cases bytes with
    | nil =>
      have hlow : (UInt8.ofNat range.1).toNat = range.1 := toNat_ofNat (by omega)
      cases ranges with
      | nil =>
        refine ⟨[UInt8.ofNat range.1], taken ++ [UInt8.ofNat range.1], List.cons_ne_nil _ _, ?_⟩
        rw [List.nil_append, takeTail, if_pos (by rw [hlow]; exact ⟨Nat.le_refl _, hle⟩), takeTail]
      | cons next ranges =>
        obtain ⟨more, tail, -, hmore⟩ := @ih (taken ++ [UInt8.ofNat range.1]) [] hrest rfl
        refine ⟨UInt8.ofNat range.1 :: more, tail, List.cons_ne_nil _ _, ?_⟩
        rw [List.nil_append, takeTail, if_pos (by rw [hlow]; exact ⟨Nat.le_refl _, hle⟩)]
        exact hmore
    | cons b bytes =>
      rw [takeTail] at h
      split_ifs at h with hb
      obtain ⟨more, tail, hne, hmore⟩ := ih hrest h
      exact ⟨more, tail, hne, by rw [List.cons_append, takeTail, if_pos hb, hmore]⟩

/-- What is left at the end of some bytes is a truncated character, if it is anything. -/
theorem truncated_left (bytes : List UInt8) :
    (decode bytes).2 = [] ∨ Truncated (decode bytes).2 := by
  induction bytes using decode_induction with
  | nil =>
    left
    rw [decode]
  | some a bytes c rest h ih =>
    rw [decode_of_some h]
    exact ih
  | none a bytes h =>
    right
    rw [decode_of_none h]
    unfold front at h
    cases hfollowing : following a.toNat with
    | none =>
      rw [hfollowing] at h
      exact nomatch h
    | some ranges =>
      rw [hfollowing] at h
      dsimp only at h
      cases htail : takeTail ranges [] bytes with
      | whole _ _ | broken _ =>
        rw [htail] at h
        exact nomatch h
      | missing =>
        obtain ⟨more, tail, hne, hmore⟩ := takeTail_completion (following_ranges hfollowing) htail
        refine ⟨a, bytes, more, Char.ofNat (codePoint a.toNat tail), rfl, hne, ?_⟩
        rw [front, hfollowing]
        dsimp only
        rw [hmore]

end Utf8

/-!
## Scanners

A scanner takes items out of what has arrived and leaves the rest.  It is incremental if what
arrives later goes on with what is left; the chunks then do not matter.

* `Incremental`: the scanners;
* `scan_left`: what is left gives nothing more;
* `feed`, `feed_eq`: a scanner that is fed chunks, and what it comes to.
-/

namespace Scanning

variable {α β : Type*}

/-- What arrives later goes on with what is left. -/
def Incremental (scan : List α → List β × List α) : Prop :=
  ∀ xs ys, scan (xs ++ ys) =
    ((scan xs).1 ++ (scan ((scan xs).2 ++ ys)).1, (scan ((scan xs).2 ++ ys)).2)

/-- The items of some chunks, behind what is left of earlier ones. -/
def feed (scan : List α → List β × List α) : List α → List (List α) → List β × List α
  | left, [] => ([], left)
  | left, chunk :: chunks =>
    let r := scan (left ++ chunk)
    let rest := feed scan r.2 chunks
    (r.1 ++ rest.1, rest.2)

variable {scan : List α → List β × List α}

/-- What is left gives nothing more. -/
theorem scan_left (h : Incremental scan) (xs : List α) : scan (scan xs).2 = ([], (scan xs).2) := by
  have hxs := h xs []
  rw [List.append_nil, List.append_nil] at hxs
  have hitems := congrArg Prod.fst hxs
  have hleft := congrArg Prod.snd hxs
  exact Prod.ext (List.self_eq_append_right.1 hitems) hleft.symm

/-- The chunks do not matter. -/
theorem feed_eq (h : Incremental scan) {left : List α} (hleft : scan left = ([], left))
    (chunks : List (List α)) : feed scan left chunks = scan (left ++ chunks.flatten) := by
  induction chunks generalizing left with
  | nil => rw [feed, List.flatten_nil, List.append_nil, hleft]
  | cons chunk chunks ih =>
    rw [feed, ih (scan_left h _), List.flatten_cons, ← List.append_assoc, h (left ++ chunk)]

end Scanning
