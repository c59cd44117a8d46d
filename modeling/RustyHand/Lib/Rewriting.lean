import Mathlib.Data.List.Infix
import Mathlib.Data.List.Count
import Mathlib.Data.Nat.Notation

/-!
# Rewriting loops

Loops that go on until a round finds nothing more to do, and rounds that look for the first place
where a pattern stands.

* `loop`: the rounds of a loop; `loop_eq`: what it comes to, if a measure decreases;
* `cut`: what stands before a pattern and behind it; `findLast`: where it stands last;
* `pairRound`: the first two places of a marker are replaced;
* `pairs`, `loop_pairRound`: all of them are replaced;
* `linkRound`: an opening, a middle and an end, and what stands between them, are replaced;
* `cut_flatMap`, `pairRound_flatMap`, `linkRound_flatMap`: the same over another alphabet, each
  symbol of which is spelled out.
-/

namespace Rewriting

/-! ### Loops -/

section Loop

variable {α β : Type*}

/-- The rounds of a loop; none is left when the fuel is used up. -/
def loop (round : α → Option α) : ℕ → α → Option α
  | 0, _ => none
  | fuel + 1, s =>
    match round s with
    | none => some s
    | some s' => loop round fuel s'

/-- A loop whose rounds decrease a measure, and do not change what it is to come to. -/
theorem loop_eq {round : α → Option α} {final : α → α} (measure : α → ℕ)
    (hstop : ∀ s, round s = none → final s = s)
    (hround : ∀ s s', round s = some s' → measure s' < measure s ∧ final s' = final s)
    {fuel : ℕ} {s : α} (hfuel : measure s < fuel) : loop round fuel s = some (final s) := by
  induction fuel generalizing s with
  | zero => exact absurd hfuel (Nat.not_lt_zero _)
  | succ fuel ih =>
    rw [loop]
    cases h : round s with
    | none => exact congrArg some (hstop s h).symm
    | some s' =>
      obtain ⟨hlt, hfinal⟩ := hround s s' h
      exact (ih (by omega)).trans (congrArg some hfinal)

theorem loop_map {f : α → β} {round : α → Option α} {round' : β → Option β}
    (h : ∀ s, round' (f s) = (round s).map f) (fuel : ℕ) (s : α) :
    loop round' fuel (f s) = (loop round fuel s).map f := by
  induction fuel generalizing s with
  | zero => rfl
  | succ fuel ih =>
    rw [loop, loop, h]
    cases round s with
    | none => rfl
    | some s' => exact ih s'

end Loop

/-! ### Patterns -/

section Cut

variable {α : Type*} [DecidableEq α]

/-- What stands before the first place of a pattern, and what stands behind it. -/
def cut (pattern : List α) : List α → Option (List α × List α)
  | [] => if pattern = [] then some ([], []) else none
  | a :: as =>
    if pattern <+: a :: as then some ([], (a :: as).drop pattern.length)
    else (cut pattern as).map fun r => (a :: r.1, r.2)

theorem cut_nil (pattern : List α) :
    cut pattern [] = if pattern = [] then some ([], []) else none := rfl

theorem cut_cons (pattern : List α) (a : α) (as : List α) :
    cut pattern (a :: as) =
      if pattern <+: a :: as then some ([], (a :: as).drop pattern.length)
      else (cut pattern as).map fun r => (a :: r.1, r.2) := rfl

variable {pattern xs ys before behind : List α} {b : α}

theorem eq_of_cut (h : cut pattern xs = some (before, behind)) :
    xs = before ++ pattern ++ behind := by
  induction xs generalizing before behind with
  | nil =>
    rw [cut_nil] at h
    split_ifs at h with hnil
    obtain ⟨rfl, rfl⟩ := Prod.mk.inj (Option.some.inj h)
    rw [hnil]
    rfl
  | cons a xs ih =>
    rw [cut_cons] at h
    split_ifs at h with hpre
    · obtain ⟨rfl, rfl⟩ := Prod.mk.inj (Option.some.inj h)
      exact (List.prefix_iff_eq_append.1 hpre).symm
    · obtain ⟨⟨front, back⟩, hr, heq⟩ := Option.map_eq_some_iff.1 h
      obtain ⟨rfl, rfl⟩ := Prod.mk.inj heq
      rw [ih hr]
      rfl

theorem cut_eq_none_iff (hne : pattern ≠ []) : cut pattern xs = none ↔ ¬ pattern <:+: xs := by
  induction xs with
  | nil => simp [cut_nil, hne]
  | cons a xs ih =>
    rw [cut_cons, List.infix_cons_iff]
    split_ifs with hpre
    · simp [hpre]
    · simp [hpre, ih]

/-- The place that is found is the first one. -/
theorem not_infix_of_cut (hne : pattern ≠ []) (h : cut pattern xs = some (before, behind)) :
    ¬ pattern <:+: before := by
  induction xs generalizing before behind with
  | nil =>
    rw [cut_nil, if_neg hne] at h
    exact nomatch h
  | cons a xs ih =>
    rw [cut_cons] at h
    split_ifs at h with hpre
    · obtain ⟨rfl, -⟩ := Prod.mk.inj (Option.some.inj h)
      simpa using hne
    · obtain ⟨⟨front, back⟩, hr, heq⟩ := Option.map_eq_some_iff.1 h
      obtain ⟨rfl, rfl⟩ := Prod.mk.inj heq
      rw [List.infix_cons_iff, not_or]
      refine ⟨fun hfront => hpre ?_, ih hr⟩
      rw [eq_of_cut hr, List.append_assoc, ← List.cons_append]
      exact hfront.trans (List.prefix_append ..)

omit [DecidableEq α] in
/-- A pattern does not begin with a symbol that it does not have. -/
theorem not_prefix_cons (hne : pattern ≠ []) (hb : b ∉ pattern) : ¬ pattern <+: b :: ys := by
  intro hpre
  cases pattern with
  | nil => exact hne rfl
  | cons c pattern => exact hb (List.mem_cons.2 (.inl (List.cons_prefix_cons.1 hpre).1.symm))

omit [DecidableEq α] in
/-- A pattern does not go beyond a symbol that it does not have. -/
theorem prefix_of_prefix_append_cons (hb : b ∉ pattern) (h : pattern <+: xs ++ b :: ys) :
    pattern <+: xs := by
  rcases List.prefix_or_prefix_of_prefix h (List.prefix_append ..) with hxs | ⟨rest, rfl⟩
  · exact hxs
  · cases rest with
    | nil => rw [List.append_nil]
    | cons c rest =>
      have hrest := (List.prefix_append_right_inj xs).1 h
      exact absurd hrest (not_prefix_cons (List.cons_ne_nil _ _)
        fun hmem => hb (List.mem_append_right xs hmem))

theorem cut_append_cons (hne : pattern ≠ []) (hxs : ¬ pattern <:+: xs) (hb : b ∉ pattern) :
    cut pattern (xs ++ b :: ys) = (cut pattern ys).map fun r => (xs ++ b :: r.1, r.2) := by
  induction xs with
  | nil =>
    rw [List.nil_append, cut_cons, if_neg (not_prefix_cons hne hb)]
    rfl
  | cons a xs ih =>
    rw [List.infix_cons_iff, not_or] at hxs
    have hpre : ¬ pattern <+: a :: xs ++ b :: ys :=
      fun hpre => hxs.1 (prefix_of_prefix_append_cons hb hpre)
    rw [List.cons_append] at hpre ⊢
    rw [cut_cons, if_neg hpre, ih hxs.2, Option.map_map]
    rfl

/-- A pattern that does not have its first symbol again is found where it stands. -/
theorem cut_append_pattern {a : α} {as : List α} (ha : a ∉ as) (hxs : ¬ a :: as <:+: xs)
    (ys : List α) : cut (a :: as) (xs ++ a :: as ++ ys) = some (xs, ys) := by
  induction xs with
  | nil => rw [List.nil_append, List.cons_append, cut_cons, ← List.cons_append,
      if_pos (List.prefix_append ..), List.drop_left]
  | cons x xs ih =>
    rw [List.infix_cons_iff, not_or] at hxs
    have hpre : ¬ a :: as <+: x :: (xs ++ a :: as ++ ys) := by
      intro hpre
      have hpre' : a :: as <+: x :: xs ++ (a :: as ++ ys) := by simpa using hpre
      rcases List.prefix_or_prefix_of_prefix hpre' (List.prefix_append ..) with hin | ⟨rest, hrest⟩
      · exact hxs.1 hin
      · cases rest with
        | nil => exact hxs.1 ⟨[], by simpa using hrest.symm⟩
        | cons b rest =>
          -- the pattern would begin again behind `x :: xs`
          rw [← hrest, List.prefix_append_right_inj] at hpre'
          obtain ⟨rfl, -⟩ := List.cons_prefix_cons.1 (hrest ▸ hpre' : b :: rest <+: a :: as ++ ys)
          obtain ⟨-, has⟩ := List.cons.inj hrest
          exact ha (has ▸ List.mem_append_right xs List.mem_cons_self)
    rw [List.cons_append, List.cons_append, cut_cons, if_neg hpre, ih hxs.2]
    rfl

/-- Symbols that the pattern does not have are passed over. -/
theorem cut_append_of_disjoint (hne : pattern ≠ []) (hxs : ∀ a ∈ xs, a ∉ pattern) :
    cut pattern (xs ++ ys) = (cut pattern ys).map fun r => (xs ++ r.1, r.2) := by
  induction xs with
  | nil => simp
  | cons a xs ih =>
    rw [List.forall_mem_cons] at hxs
    rw [List.cons_append, cut_cons, if_neg (not_prefix_cons hne hxs.1), ih hxs.2, Option.map_map]
    rfl

/-- The last place where a pattern begins. -/
def findLast (pattern : List α) : List α → Option ℕ
  | [] => if pattern = [] then some 0 else none
  | a :: as =>
    match findLast pattern as with
    | some i => some (i + 1)
    | none => if pattern <+: a :: as then some 0 else none

theorem prefix_of_findLast {i : ℕ} (h : findLast pattern xs = some i) : pattern <+: xs.drop i := by
  induction xs generalizing i with
  | nil =>
    rw [findLast] at h
    split_ifs at h with hnil
    rw [hnil]
    exact List.nil_prefix
  | cons a xs ih =>
    rw [findLast] at h
    cases hxs : findLast pattern xs with
    | some j =>
      rw [hxs] at h
      obtain rfl := Option.some.inj h
      exact ih hxs
    | none =>
      rw [hxs] at h
      dsimp only at h
      split_ifs at h with hpre
      obtain rfl := Option.some.inj h
      exact hpre

/-! ### One pattern behind another -/

/-- What stands behind the opening of a link: the text up to the middle, the target up to the end,
and the rest. -/
def linkTail (middle ending text : List α) : Option (List α × List α × List α) :=
  (cut middle text).bind fun (label, behind) =>
    (cut ending behind).map fun (url, rest) => (label, url, rest)

variable {middle ending text label url rest : List α}

theorem linkTail_eq_some_iff : linkTail middle ending text = some (label, url, rest) ↔
    ∃ behind, cut middle text = some (label, behind) ∧ cut ending behind = some (url, rest) := by
  constructor
  · intro h
    obtain ⟨⟨front, behind⟩, hfront, h⟩ := Option.bind_eq_some_iff.1 h
    obtain ⟨⟨target, back⟩, htarget, h⟩ := Option.map_eq_some_iff.1 h
    obtain ⟨rfl, rfl, rfl⟩ : front = label ∧ target = url ∧ back = rest := by simpa using h
    exact ⟨behind, hfront, htarget⟩
  · rintro ⟨behind, hfront, htarget⟩
    rw [linkTail, hfront, Option.bind_some]
    dsimp only
    rw [htarget]
    rfl

theorem eq_of_linkTail (h : linkTail middle ending text = some (label, url, rest)) :
    text = label ++ middle ++ url ++ ending ++ rest := by
  obtain ⟨behind, hfront, htarget⟩ := linkTail_eq_some_iff.1 h
  rw [eq_of_cut hfront, eq_of_cut htarget]
  simp only [List.append_assoc]

/-! ### Pairs of markers -/

/-- What a marker and the next one stand between. -/
def pair (marker text : List α) : Option (List α × List α × List α) :=
  (cut marker text).bind fun (before, behind) =>
    (cut marker behind).map fun (inner, rest) => (before, inner, rest)

/-- A round that replaces a marker and the next one. -/
def pairRound (marker start stop result : List α) : Option (List α) :=
  (pair marker result).map fun (before, inner, rest) => before ++ start ++ inner ++ stop ++ rest

theorem pair_eq_linkTail (marker : List α) : pair marker = linkTail marker marker := rfl

variable {inner : List α}

theorem pair_eq_some_iff : pair pattern text = some (before, inner, rest) ↔
    ∃ behind, cut pattern text = some (before, behind) ∧
      cut pattern behind = some (inner, rest) :=
  linkTail_eq_some_iff

theorem eq_of_pair (h : pair pattern text = some (before, inner, rest)) :
    text = before ++ pattern ++ inner ++ pattern ++ rest :=
  eq_of_linkTail h

theorem pair_append_cons (hne : pattern ≠ []) (hxs : ¬ pattern <:+: xs) (hb : b ∉ pattern) :
    pair pattern (xs ++ b :: ys) = (pair pattern ys).map fun r => (xs ++ b :: r.1, r.2) := by
  rw [pair, cut_append_cons hne hxs hb, pair]
  cases cut pattern ys with
  | none => rfl
  | some r =>
    dsimp only [Option.map_some, Option.bind_some]
    rw [Option.map_map]
    rfl

variable (m : α) (ms : List α) (start stop : α)

/-- Every marker is replaced with the one that comes next; a last one without another stays. -/
def pairs (text : List α) : List α :=
  match _h : pair (m :: ms) text with
  | none => text
  | some (before, inner, rest) => before ++ start :: inner ++ stop :: pairs rest
termination_by text.length
decreasing_by
  rw [eq_of_pair _h]
  simp only [List.length_append, List.length_cons]
  omega

variable {m ms start stop}

theorem pairs_of_none (h : pair (m :: ms) text = none) : pairs m ms start stop text = text := by
  rw [pairs]
  split
  · rfl
  · rename_i heq
    rw [h] at heq
    exact nomatch heq

theorem pairs_of_some (h : pair (m :: ms) text = some (before, inner, rest)) :
    pairs m ms start stop text =
      before ++ start :: inner ++ stop :: pairs m ms start stop rest := by
  rw [pairs]
  split
  · rename_i heq
    rw [h] at heq
    exact nomatch heq
  · rename_i heq
    rw [h] at heq
    obtain ⟨rfl, rfl, rfl⟩ : before = _ ∧ inner = _ ∧ rest = _ := by simpa using heq
    rfl

/-- What has no marker stays as it is. -/
theorem pairs_append_cons (hxs : ¬ m :: ms <:+: xs) (hb : b ∉ m :: ms) :
    pairs m ms start stop (xs ++ b :: ys) = xs ++ b :: pairs m ms start stop ys := by
  have happend : pair (m :: ms) (xs ++ b :: ys) = _ :=
    pair_append_cons (List.cons_ne_nil m ms) hxs hb
  cases hys : pair (m :: ms) ys with
  | none =>
    rw [hys] at happend
    rw [pairs_of_none happend, pairs_of_none hys]
  | some r =>
    obtain ⟨before, inner, rest⟩ := r
    rw [hys] at happend
    rw [pairs_of_some happend, pairs_of_some hys]
    simp

theorem pairs_induction (m : α) (ms : List α) {motive : List α → Prop}
    (none : ∀ text, pair (m :: ms) text = none → motive text)
    (some : ∀ text before inner rest, pair (m :: ms) text = some (before, inner, rest) →
      motive rest → motive text) (text : List α) : motive text := by
  induction hn : text.length using Nat.strong_induction_on generalizing text with
  | _ n ih =>
    cases h : pair (m :: ms) text with
    | none => exact none text h
    | some r =>
      obtain ⟨before, inner, rest⟩ := r
      refine some text before inner rest h (ih rest.length ?_ rest rfl)
      rw [← hn, eq_of_pair h]
      simp only [List.length_append, List.length_cons]
      omega

/-- Other symbols are not touched. -/
theorem count_pairs {c : α} (hc : c ∉ m :: ms) (hstart : c ≠ start) (hstop : c ≠ stop)
    (text : List α) : (pairs m ms start stop text).count c = text.count c := by
  induction text using pairs_induction m ms with
  | none text h => rw [pairs_of_none h]
  | some text before inner rest h ih =>
    rw [pairs_of_some h, eq_of_pair h]
    simp only [List.count_append, List.count_cons_of_ne hstart.symm,
      List.count_cons_of_ne hstop.symm, ih, List.count_eq_zero_of_not_mem hc]
    omega

/-- A loop that replaces pairs ends, and all pairs are replaced then. -/
theorem loop_pairRound (hstart : start ∉ m :: ms) (hstop : stop ∉ m :: ms) {fuel : ℕ}
    (hfuel : text.count m < fuel) :
    loop (pairRound (m :: ms) [start] [stop]) fuel text = some (pairs m ms start stop text) := by
  refine loop_eq (List.count m) ?_ ?_ hfuel
  · intro text h
    exact pairs_of_none (Option.map_eq_none_iff.1 h)
  · intro text result h
    obtain ⟨⟨before, inner, rest⟩, hpair, rfl⟩ := Option.map_eq_some_iff.1 h
    obtain ⟨behind, hfront, hmiddle⟩ := pair_eq_some_iff.1 hpair
    have hbefore := not_infix_of_cut (List.cons_ne_nil m ms) hfront
    have hinner := not_infix_of_cut (List.cons_ne_nil m ms) hmiddle
    have hresult : before ++ [start] ++ inner ++ [stop] ++ rest =
        before ++ start :: (inner ++ stop :: rest) := by simp
    dsimp only
    rw [hresult]
    constructor
    · have hne : start ≠ m := fun heq => hstart (heq ▸ List.mem_cons_self)
      have hne' : stop ≠ m := fun heq => hstop (heq ▸ List.mem_cons_self)
      rw [eq_of_pair hpair]
      simp only [List.count_append, List.count_cons_of_ne hne, List.count_cons_of_ne hne',
        List.count_cons_self]
      omega
    · rw [pairs_append_cons hbefore hstart, pairs_append_cons hinner hstop, pairs_of_some hpair]
      simp

/-! ### Links -/

/-- A round that replaces a link. -/
def linkRound (opening middle ending : List α) (format : List α → List α → List α)
    (result : List α) : Option (List α) :=
  (cut opening result).bind fun (before, behind) =>
    (linkTail middle ending behind).map fun (label, url, rest) => before ++ format label url ++ rest

variable {e : α}

theorem cut_singleton_eq_none_iff : cut [e] text = none ↔ e ∉ text := by
  rw [cut_eq_none_iff (List.cons_ne_nil _ _), List.singleton_infix_iff]

theorem not_mem_of_cut (h : cut [e] text = some (before, behind)) : e ∉ before := by
  have hinfix := not_infix_of_cut (List.cons_ne_nil _ _) h
  rwa [List.singleton_infix_iff] at hinfix

/-- Where a link goes on, it goes on from any place before it. -/
theorem linkTail_cons_of_none {a : α} (h : linkTail middle [e] (a :: text) = none) :
    linkTail middle [e] text = none := by
  by_contra hsome
  obtain ⟨⟨label, url, rest⟩, hsome⟩ := Option.ne_none_iff_exists'.1 hsome
  obtain ⟨behind, hfront, htarget⟩ := linkTail_eq_some_iff.1 hsome
  have hmem : e ∈ behind := by
    by_contra hmem
    rw [cut_singleton_eq_none_iff.2 hmem] at htarget
    exact nomatch htarget
  obtain ⟨front, back, hcut, hback⟩ :
      ∃ front back, cut middle (a :: text) = some (front, back) ∧ e ∈ back := by
    by_cases hpre : middle <+: a :: text
    · refine ⟨[], (a :: text).drop middle.length, by rw [cut_cons, if_pos hpre], ?_⟩
      -- the first place of the middle stands before the other one
      have hsuffix : behind <:+ (a :: text).drop middle.length := by
        refine List.suffix_of_suffix_length_le ?_ (List.drop_suffix ..) ?_
        · exact ⟨a :: label ++ middle, by rw [eq_of_cut hfront]; rfl⟩
        · rw [eq_of_cut hfront]
          simp only [List.length_drop, List.length_cons, List.length_append]
          omega
      exact hsuffix.subset hmem
    · exact ⟨a :: label, behind, by rw [cut_cons, if_neg hpre, hfront]; rfl, hmem⟩
  have hnone : cut [e] back = none := by
    rw [linkTail, hcut] at h
    exact Option.map_eq_none_iff.1 h
  exact cut_singleton_eq_none_iff.1 hnone hback

variable (o m : α) (middle : List α) (e start mid stop : α)

/-- Every link is replaced, the first one first. -/
def links : List α → List α
  | [] => []
  | a :: text =>
    if a = o then
      match _h : linkTail (m :: middle) [e] text with
      | some (label, url, rest) => start :: links (url ++ mid :: (label ++ stop :: rest))
      | none => a :: links text
    else a :: links text
termination_by text => text.length
decreasing_by
  · rw [eq_of_linkTail _h]
    simp only [List.length_append, List.length_cons]
    omega
  · simp
  · simp

variable {o m middle e start mid stop} {a : α}

@[simp]
theorem links_nil : links o m middle e start mid stop [] = [] := by rw [links]

theorem links_cons_of_ne (h : a ≠ o) :
    links o m middle e start mid stop (a :: text) =
      a :: links o m middle e start mid stop text := by
  rw [links, if_neg h]

theorem links_cons_of_some (h : linkTail (m :: middle) [e] text = some (label, url, rest)) :
    links o m middle e start mid stop (o :: text) =
      start :: links o m middle e start mid stop (url ++ mid :: (label ++ stop :: rest)) := by
  rw [links, if_pos rfl]
  split
  · rename_i heq
    rw [h] at heq
    obtain ⟨rfl, rfl, rfl⟩ : label = _ ∧ url = _ ∧ rest = _ := by simpa using heq
    rfl
  · rename_i heq
    rw [h] at heq
    exact nomatch heq

theorem links_cons_of_none (h : linkTail (m :: middle) [e] text = none) :
    links o m middle e start mid stop (o :: text) =
      o :: links o m middle e start mid stop text := by
  rw [links, if_pos rfl]
  split
  · rename_i heq
    rw [h] at heq
    exact nomatch heq
  · rfl

theorem links_induction (o m : α) (middle : List α) (e mid stop : α) {motive : List α → Prop}
    (nil : motive [])
    (link : ∀ text label url rest, linkTail (m :: middle) [e] text = some (label, url, rest) →
      motive (url ++ mid :: (label ++ stop :: rest)) → motive (o :: text))
    (other : ∀ a text, (a = o → linkTail (m :: middle) [e] text = none) → motive text →
      motive (a :: text)) (text : List α) : motive text := by
  induction hn : text.length using Nat.strong_induction_on generalizing text with
  | _ n ih =>
    cases text with
    | nil => exact nil
    | cons a text =>
      rw [List.length_cons] at hn
      have hother : (a = o → linkTail (m :: middle) [e] text = none) → motive (a :: text) :=
        fun h => other a text h (ih text.length (by omega) text rfl)
      by_cases ha : a = o
      · cases h : linkTail (m :: middle) [e] text with
        | none => exact hother fun _ => h
        | some r =>
          obtain ⟨label, url, rest⟩ := r
          rw [ha]
          refine link text label url rest h (ih _ ?_ _ rfl)
          rw [← hn, eq_of_linkTail h]
          simp only [List.length_append, List.length_cons]
          omega
      · exact hother fun heq => absurd heq ha

theorem links_cons_of_imp (h : a = o → linkTail (m :: middle) [e] text = none) :
    links o m middle e start mid stop (a :: text) =
      a :: links o m middle e start mid stop text := by
  by_cases ha : a = o
  · rw [ha, links_cons_of_none (h ha)]
  · exact links_cons_of_ne ha

theorem links_of_none (h : linkTail (m :: middle) [e] text = none) :
    links o m middle e start mid stop text = text := by
  induction text with
  | nil => exact links_nil
  | cons a text ih =>
    have htext := linkTail_cons_of_none h
    rw [links_cons_of_imp fun _ => htext, ih htext]

theorem links_append (h : o ∉ xs) (ys : List α) :
    links o m middle e start mid stop (xs ++ ys) =
      xs ++ links o m middle e start mid stop ys := by
  induction xs with
  | nil => rfl
  | cons a xs ih =>
    rw [List.mem_cons, not_or] at h
    rw [List.cons_append, links_cons_of_ne (Ne.symm h.1), ih h.2]
    rfl

theorem links_of_not_mem (h : o ∉ text) : links o m middle e start mid stop text = text := by
  induction text with
  | nil => exact links_nil
  | cons a text ih =>
    rw [List.mem_cons, not_or] at h
    rw [links_cons_of_ne (Ne.symm h.1), ih h.2]

/-- Other symbols are not touched. -/
theorem count_links {c : α} (ho : c ≠ o) (hmiddle : c ∉ m :: middle) (he : c ≠ e)
    (hstart : c ≠ start) (hmid : c ≠ mid) (hstop : c ≠ stop) (text : List α) :
    (links o m middle e start mid stop text).count c = text.count c := by
  induction text using links_induction o m middle e mid stop with
  | nil => rw [links_nil]
  | link text label url rest h ih =>
    rw [links_cons_of_some h, List.count_cons_of_ne hstart.symm, ih, List.count_cons_of_ne ho.symm,
      eq_of_linkTail h]
    simp only [List.count_append, List.count_cons_of_ne hmid.symm, List.count_cons_of_ne hstop.symm,
      List.count_cons_of_ne he.symm, List.count_eq_zero_of_not_mem hmiddle, List.count_nil]
    omega
  | other a text h ih =>
    rw [links_cons_of_imp h, List.count_cons, List.count_cons, ih]

/-- A loop that replaces links ends, and all links are replaced then. -/
theorem loop_linkRound (hstart : start ≠ o) (hmid : mid ≠ o) (hstop : stop ≠ o) {fuel : ℕ}
    (hfuel : text.count o < fuel) :
    loop (linkRound [o] (m :: middle) [e] fun label url => start :: url ++ mid :: label ++ [stop])
      fuel text = some (links o m middle e start mid stop text) := by
  refine loop_eq (List.count o) ?_ ?_ hfuel
  · intro text h
    cases hcut : cut [o] text with
    | none => exact links_of_not_mem (cut_singleton_eq_none_iff.1 hcut)
    | some r =>
      obtain ⟨before, behind⟩ := r
      have hbefore := not_mem_of_cut hcut
      rw [linkRound, hcut] at h
      have hnone := Option.map_eq_none_iff.1 h
      rw [eq_of_cut hcut, List.append_assoc, links_append hbefore, List.singleton_append,
        links_cons_of_none hnone, links_of_none hnone]
  · intro text result h
    obtain ⟨⟨before, behind⟩, hcut, h⟩ := Option.bind_eq_some_iff.1 h
    obtain ⟨⟨label, url, rest⟩, htail, rfl⟩ := Option.map_eq_some_iff.1 h
    have hbefore := not_mem_of_cut hcut
    have hresult : before ++ (start :: url ++ mid :: label ++ [stop]) ++ rest =
        before ++ start :: (url ++ mid :: (label ++ stop :: rest)) := by simp
    dsimp only
    rw [hresult, eq_of_cut hcut, List.append_assoc, List.singleton_append]
    constructor
    · rw [eq_of_linkTail htail]
      simp only [List.count_append, List.count_cons_of_ne hstart, List.count_cons_of_ne hmid,
        List.count_cons_of_ne hstop, List.count_cons_self]
      omega
    · rw [links_append hbefore, links_append hbefore, links_cons_of_ne hstart,
        links_cons_of_some htail]

end Cut

/-! ### Spelling out -/

section Spelling

variable {α β : Type*}

/-- A spelling in which the symbols of a pattern are spelled by themselves, and occur in no other
symbol. -/
structure Spells (f : α → List β) (letter : β → α) (pattern : List β) : Prop where
  single : ∀ b, f (letter b) = [b]
  filled : ∀ a, f a ≠ []
  only : ∀ a, ∀ b ∈ pattern, b ∈ f a → a = letter b

variable {f : α → List β} {letter : β → α} {pattern : List β}

theorem Spells.mono {part : List β} (h : Spells f letter pattern) (hpart : part ⊆ pattern) :
    Spells f letter part :=
  ⟨h.single, h.filled, fun a b hb => h.only a b (hpart hb)⟩

theorem Spells.prefix_iff (h : Spells f letter pattern) (as : List α) :
    pattern <+: as.flatMap f ↔ pattern.map letter <+: as := by
  induction pattern generalizing as with
  | nil => simp
  | cons b pattern ih =>
    have hrest := h.mono (List.subset_cons_self b pattern)
    cases as with
    | nil => simp
    | cons a as =>
      obtain ⟨c, cs, ha⟩ := List.exists_cons_of_ne_nil (h.filled a)
      rw [List.flatMap_cons, ha, List.cons_append, List.map_cons, List.cons_prefix_cons,
        List.cons_prefix_cons]
      by_cases hbc : b = c
      · obtain rfl := h.only a b List.mem_cons_self (by rw [ha, hbc]; exact List.mem_cons_self)
        rw [h.single] at ha
        obtain ⟨-, rfl⟩ := List.cons.inj ha
        rw [and_iff_right hbc, and_iff_right rfl, List.nil_append, ih hrest]
      · refine iff_of_false (fun hpre => hbc hpre.1) fun hpre => hbc ?_
        rw [← hpre.1, h.single] at ha
        exact (List.cons.inj ha).1

variable [DecidableEq α] [DecidableEq β]

theorem Spells.cut_flatMap (h : Spells f letter pattern) (hne : pattern ≠ []) (as : List α) :
    cut pattern (as.flatMap f) =
      (cut (pattern.map letter) as).map fun r => (r.1.flatMap f, r.2.flatMap f) := by
  induction as with
  | nil => simp [cut_nil, hne]
  | cons a as ih =>
    rw [cut_cons]
    have hprefix := h.prefix_iff (a :: as)
    by_cases hpre : pattern.map letter <+: a :: as
    · obtain ⟨rest, hrest⟩ := hpre
      have hspelled : (pattern.map letter).flatMap f = pattern := by
        rw [List.flatMap_map]
        simp only [h.single]
        exact List.flatMap_singleton' pattern
      rw [if_pos ⟨rest, hrest⟩, ← hrest, List.flatMap_append, hspelled]
      have hcut : cut pattern (pattern ++ rest.flatMap f) = some ([], rest.flatMap f) := by
        obtain ⟨b, bs, hbs⟩ := List.exists_cons_of_ne_nil hne
        rw [hbs, List.cons_append, cut_cons, ← List.cons_append, if_pos (List.prefix_append ..),
          List.drop_left]
      rw [hcut, List.drop_left]
      rfl
    · rw [if_neg hpre, Option.map_map, List.flatMap_cons]
      rw [List.flatMap_cons] at hprefix
      have hpass : cut pattern (f a ++ as.flatMap f) =
          (cut pattern (as.flatMap f)).map fun r => (f a ++ r.1, r.2) := by
        by_cases hletter : ∃ b ∈ pattern, b ∈ f a
        · obtain ⟨b, hb, hmem⟩ := hletter
          obtain rfl := h.only a b hb hmem
          rw [h.single, List.singleton_append] at hprefix ⊢
          rw [cut_cons, if_neg (mt hprefix.1 hpre)]
          rfl
        · exact cut_append_of_disjoint hne fun b hmem hb => hletter ⟨b, hb, hmem⟩
      rw [hpass, ih, Option.map_map]
      rfl

theorem Spells.linkTail_flatMap {middle ending : List β} (h : Spells f letter (middle ++ ending))
    (hmiddle : middle ≠ []) (hending : ending ≠ []) (as : List α) :
    linkTail middle ending (as.flatMap f) =
      (linkTail (middle.map letter) (ending.map letter) as).map fun r =>
        (r.1.flatMap f, r.2.1.flatMap f, r.2.2.flatMap f) := by
  have hm : Spells f letter middle := h.mono (by simp)
  have he : Spells f letter ending := h.mono (by simp)
  rw [linkTail, hm.cut_flatMap hmiddle, linkTail]
  cases cut (middle.map letter) as with
  | none => rfl
  | some r =>
    dsimp only [Option.map_some, Option.bind_some]
    rw [he.cut_flatMap hending, Option.map_map, Option.map_map]
    rfl

theorem Spells.pairRound_flatMap (h : Spells f letter pattern) (hne : pattern ≠ [])
    (start stop as : List α) :
    pairRound pattern (start.flatMap f) (stop.flatMap f) (as.flatMap f) =
      (pairRound (pattern.map letter) start stop as).map (List.flatMap f) := by
  have hpair : Spells f letter (pattern ++ pattern) := h.mono (by simp)
  rw [pairRound, pairRound, pair_eq_linkTail, pair_eq_linkTail, hpair.linkTail_flatMap hne hne,
    Option.map_map, Option.map_map]
  congr 1
  funext r
  simp

theorem Spells.linkRound_flatMap {opening middle ending : List β}
    (h : Spells f letter (opening ++ middle ++ ending)) (hopening : opening ≠ [])
    (hmiddle : middle ≠ []) (hending : ending ≠ []) {format : List α → List α → List α}
    {format' : List β → List β → List β}
    (hformat : ∀ label url,
      format' (label.flatMap f) (url.flatMap f) = (format label url).flatMap f)
    (as : List α) :
    linkRound opening middle ending format' (as.flatMap f) =
      (linkRound (opening.map letter) (middle.map letter) (ending.map letter) format as).map
        (List.flatMap f) := by
  have ho : Spells f letter opening := h.mono (by simp)
  have htail : Spells f letter (middle ++ ending) := h.mono (by simp)
  rw [linkRound, ho.cut_flatMap hopening, linkRound]
  cases cut (opening.map letter) as with
  | none => rfl
  | some r =>
    dsimp only [Option.map_some, Option.bind_some]
    rw [htail.linkTail_flatMap hmiddle hending, Option.map_map, Option.map_map]
    congr 1
    funext r'
    simp [hformat]

end Spelling
end Rewriting
