import RustyHand.Lib.Rewriting

/-!
# Bot tokens in texts

`redact_telegram_token` of `rusty-hand-types/src/text.rs`: behind the host, what stands between the
next `/bot` and the slash after it is not shown.

* `redactTelegramToken`;
* `Group`, `write`: texts with tokens in them; `Tokens`: how far a token goes;
* `redactTelegramToken_write`: what becomes of such a text;
* `redactTelegramToken_idempotent`.
-/

namespace RustyHand
namespace RedactToken

open Rewriting

/-- `DOMAIN`. -/
def domain : List Char := "telegram.org".toList

/-- `BOT`. -/
def bot : List Char := "/bot".toList

/-- What is put in the place of a token. -/
def redacted : List Char := "<redacted>".toList

/-- `redact_telegram_token`, over the rest of the text. -/
def redactTelegramToken (rest : List Char) : List Char :=
  match _h : cut domain rest with
  | none => rest
  | some (before, afterDom) =>
    match _hbot : cut bot afterDom with
    | some (path, afterBot) =>
      -- without a slash nothing is left
      before ++ domain ++ (path ++ bot ++ (redacted ++
        redactTelegramToken (afterBot.dropWhile (· ≠ '/'))))
    | none => before ++ domain ++ redactTelegramToken afterDom
termination_by rest.length
decreasing_by
  · have hlen := (List.dropWhile_suffix (l := afterBot) (· ≠ '/')).length_le
    rw [eq_of_cut _h, eq_of_cut _hbot]
    simp only [List.length_append]
    have : 0 < domain.length := by decide
    omega
  · rw [eq_of_cut _h]
    simp only [List.length_append]
    have : 0 < domain.length := by decide
    omega

variable {s before afterDom path afterBot : List Char}

theorem cut_domain (h : ¬ domain <:+: before) (rest : List Char) :
    cut domain (before ++ domain ++ rest) = some (before, rest) :=
  cut_append_pattern (by decide) h rest

theorem cut_bot (h : ¬ bot <:+: path) (rest : List Char) :
    cut bot (path ++ bot ++ rest) = some (path, rest) :=
  cut_append_pattern (by decide) h rest

/-! ### The cases of the loop -/

theorem redact_of_none (h : ¬ domain <:+: s) : redactTelegramToken s = s := by
  rw [redactTelegramToken]
  split
  · rfl
  · rename_i heq
    rw [(cut_eq_none_iff (by decide)).2 h] at heq
    cases heq

/-- Behind a host, the first `/bot` decides. -/
theorem redact_of_domain (h : ¬ domain <:+: before) (afterDom : List Char) :
    redactTelegramToken (before ++ domain ++ afterDom) = before ++ domain ++
      match cut bot afterDom with
      | some (path, afterBot) =>
        path ++ bot ++ (redacted ++ redactTelegramToken (afterBot.dropWhile (· ≠ '/')))
      | none => redactTelegramToken afterDom := by
  rw [redactTelegramToken]
  split
  · rename_i heq
    rw [cut_domain h] at heq
    cases heq
  · rename_i heq
    rw [cut_domain h] at heq
    obtain ⟨rfl, rfl⟩ := Prod.mk.inj (Option.some.inj heq)
    split <;> rename_i heq' <;> rw [heq']

/-- The token of a URL. -/
theorem redact_of_bot (h : ¬ domain <:+: before) (hbot : ¬ bot <:+: path) (afterBot : List Char) :
    redactTelegramToken (before ++ domain ++ (path ++ bot ++ afterBot)) =
      before ++ domain ++ (path ++ bot ++ (redacted ++
        redactTelegramToken (afterBot.dropWhile (· ≠ '/')))) := by
  rw [redact_of_domain h, cut_bot hbot]

theorem redact_of_no_bot (h : ¬ domain <:+: before) (hbot : ¬ bot <:+: afterDom) :
    redactTelegramToken (before ++ domain ++ afterDom) =
      before ++ domain ++ redactTelegramToken afterDom := by
  rw [redact_of_domain h, (cut_eq_none_iff (by decide)).2 hbot]

/-- The rounds of the loop: no host, a host with a `/bot` behind it, a host without. -/
theorem redact_induction {motive : List Char → Prop}
    (none : ∀ s, ¬ domain <:+: s → motive s)
    (bot : ∀ before path afterBot, ¬ domain <:+: before → ¬ bot <:+: path →
      motive (afterBot.dropWhile (· ≠ '/')) →
      motive (before ++ domain ++ (path ++ bot ++ afterBot)))
    (noBot : ∀ before afterDom, ¬ domain <:+: before → ¬ RedactToken.bot <:+: afterDom →
      motive afterDom → motive (before ++ domain ++ afterDom)) (s : List Char) : motive s := by
  have hpos : 0 < domain.length := by decide
  induction hn : s.length using Nat.strongRecOn generalizing s with
  | ind n ih =>
    cases hdomain : cut domain s with
    | none => exact none s ((cut_eq_none_iff (by decide)).1 hdomain)
    | some r =>
      obtain ⟨before, afterDom⟩ := r
      have hbefore := not_infix_of_cut (by decide) hdomain
      obtain rfl := eq_of_cut hdomain
      simp only [List.length_append] at hn
      cases hbot : cut RedactToken.bot afterDom with
      | none =>
        exact noBot before afterDom hbefore ((cut_eq_none_iff (by decide)).1 hbot)
          (ih _ (by omega) afterDom rfl)
      | some r =>
        obtain ⟨path, afterBot⟩ := r
        have hpath := not_infix_of_cut (by decide) hbot
        obtain rfl := eq_of_cut hbot
        have hlen := (List.dropWhile_suffix (l := afterBot) (· ≠ '/')).length_le
        simp only [List.length_append] at hn
        exact bot before path afterBot hbefore hpath (ih _ (by omega) _ rfl)

/-! ### Texts with tokens -/

/-- A host with what stands in front of it, the path up to `/bot`, and the token. -/
structure Group where
  front : List Char
  path : List Char
  token : List Char

/-- The text of some groups and of what stands behind them. -/
def write : List Group → List Char → List Char
  | [], rest => rest
  | g :: gs, rest => g.front ++ domain ++ (g.path ++ bot ++ (g.token ++ write gs rest))

/-- The token is not shown. -/
def Group.hide (g : Group) : Group := { g with token := redacted }

/-- The text is empty or goes on with a slash. -/
def AtSlash (s : List Char) : Prop := s = [] ∨ s.head? = some '/'

/-- The groups of a text: its hosts are those behind the fronts, a path goes to the first `/bot`,
and a token has no slash, but one behind it where another group follows. -/
structure Groups (groups : List Group) (rest : List Char) : Prop where
  front : ∀ g ∈ groups, ¬ domain <:+: g.front
  path : ∀ g ∈ groups, ¬ bot <:+: g.path
  token : ∀ g ∈ groups, '/' ∉ g.token
  later : ∀ g ∈ groups.tail, g.front.head? = some '/'
  free : ¬ domain <:+: rest

/-- The last token, too, goes to a slash or to the end. -/
structure Tokens (groups : List Group) (rest : List Char) : Prop extends Groups groups rest where
  atSlash : groups ≠ [] → AtSlash rest

theorem Tokens.tail {g : Group} {groups : List Group} {rest : List Char}
    (h : Tokens (g :: groups) rest) : Tokens groups rest where
  front g' hg' := h.front g' (List.mem_cons_of_mem g hg')
  path g' hg' := h.path g' (List.mem_cons_of_mem g hg')
  token g' hg' := h.token g' (List.mem_cons_of_mem g hg')
  later g' hg' := h.later g' (List.mem_of_mem_tail hg')
  free := h.free
  atSlash _ := h.atSlash (List.cons_ne_nil _ _)

/-- What stands behind a token begins with a slash. -/
theorem Tokens.write_atSlash {g : Group} {groups : List Group} {rest : List Char}
    (h : Tokens (g :: groups) rest) : AtSlash (write groups rest) := by
  cases groups with
  | nil => exact h.atSlash (List.cons_ne_nil _ _)
  | cons g' groups =>
    have hhead := h.later g' List.mem_cons_self
    right
    rw [write, List.append_assoc, List.head?_append, hhead]
    rfl

/-- What is passed over as a token is one. -/
theorem dropWhile_token {token s : List Char} (htoken : '/' ∉ token) (hs : AtSlash s) :
    (token ++ s).dropWhile (· ≠ '/') = s := by
  have hall : ∀ c ∈ token, (decide (c ≠ '/')) = true := by
    intro c hc
    have hne : c ≠ '/' := by
      rintro rfl
      exact htoken hc
    simpa using hne
  rw [List.dropWhile_append_of_pos hall]
  rcases hs with rfl | hs
  · rfl
  · cases s with
    | nil => rfl
    | cons c s =>
      obtain rfl := Option.some.inj hs
      exact List.dropWhile_cons_of_neg (by simp)

/-- The tokens are replaced, and nothing else. -/
theorem redactTelegramToken_write {groups : List Group} {rest : List Char}
    (h : Tokens groups rest) :
    redactTelegramToken (write groups rest) = write (groups.map Group.hide) rest := by
  induction groups with
  | nil => exact redact_of_none h.free
  | cons g groups ih =>
    rw [write, redact_of_bot (h.front g List.mem_cons_self) (h.path g List.mem_cons_self),
      dropWhile_token (h.token g List.mem_cons_self) h.write_atSlash, ih h.tail]
    rfl

/-! ### Redacting again -/

/-- The first character stays. -/
theorem head?_redact (s : List Char) : (redactTelegramToken s).head? = s.head? := by
  have hhead : ∀ before after after' : List Char,
      (before ++ domain ++ after).head? = (before ++ domain ++ after').head? := by
    intro before after after'
    cases before <;> rfl
  induction s using redact_induction with
  | none s h => rw [redact_of_none h]
  | bot before path afterBot h hbot _ =>
    rw [redact_of_bot h hbot]
    exact hhead _ _ _
  | noBot before afterDom h hbot _ =>
    rw [redact_of_no_bot h hbot]
    exact hhead _ _ _

theorem redact_of_not_infix_bot (h : ¬ bot <:+: s) : redactTelegramToken s = s := by
  induction s using redact_induction with
  | none s hs => exact redact_of_none hs
  | bot before path afterBot _ _ _ =>
    exact absurd ⟨before ++ domain ++ path, afterBot, by simp⟩ h
  | noBot before afterDom hbefore hbot ih => rw [redact_of_no_bot hbefore hbot, ih hbot]

theorem redact_atSlash {s : List Char} (h : AtSlash s) : AtSlash (redactTelegramToken s) := by
  rcases h with rfl | h
  · exact .inl (redact_of_none (by decide))
  · exact .inr ((head?_redact s).trans h)

theorem dropWhile_atSlash (s : List Char) : AtSlash (s.dropWhile (· ≠ '/')) := by
  have hhead := List.head?_dropWhile_not (· ≠ '/') s
  cases h : s.dropWhile (· ≠ '/') with
  | nil => exact .inl rfl
  | cons c cs =>
    rw [h] at hhead
    exact .inr (congrArg some (by simpa using hhead))

theorem redactTelegramToken_idempotent (s : List Char) :
    redactTelegramToken (redactTelegramToken s) = redactTelegramToken s := by
  induction s using redact_induction with
  | none s h => rw [redact_of_none h, redact_of_none h]
  | bot before path afterBot h hbot ih =>
    have hslash := redact_atSlash (dropWhile_atSlash afterBot)
    rw [redact_of_bot h hbot, redact_of_bot h hbot, dropWhile_token (by decide) hslash, ih]
  | noBot before afterDom h hbot _ =>
    have hsame := redact_of_not_infix_bot hbot
    rw [redact_of_no_bot h hbot, hsame, redact_of_no_bot h hbot, hsame]

/-- Of texts whose tokens go to the next slash or to the end, exactly the tokens are replaced, so
that the output does not depend on them; and redacting again changes nothing. -/
theorem redactTelegramToken_hides {groups groups' : List Group} {rest : List Char}
    (h : Tokens groups rest) (h' : Tokens groups' rest)
    (hsame : groups.map Group.hide = groups'.map Group.hide) (s : List Char) :
    redactTelegramToken (write groups rest) = write (groups.map Group.hide) rest ∧
      redactTelegramToken (write groups rest) = redactTelegramToken (write groups' rest) ∧
      redactTelegramToken (redactTelegramToken s) = redactTelegramToken s := by
  have hwrite := redactTelegramToken_write h
  have hwrite' := redactTelegramToken_write h'
  refine ⟨hwrite, ?_, redactTelegramToken_idempotent s⟩
  rw [hwrite, hwrite', hsame]

/-- A request whose URL has a token. -/
theorem redactTelegramToken_hides_url :
    redactTelegramToken "https://api.telegram.org/bot12:ab/getMe".toList =
        "https://api.telegram.org/bot<redacted>/getMe".toList ∧
      redactTelegramToken "https://api.telegram.org/bot12:ab/getMe".toList =
        redactTelegramToken "https://api.telegram.org/bot34:cd/getMe".toList ∧
      redactTelegramToken (redactTelegramToken "/bot".toList) =
        redactTelegramToken "/bot".toList := by
  have htokens : ∀ token : List Char, '/' ∉ token →
      Tokens [⟨"https://api.".toList, [], token⟩] "/getMe".toList := by
    intro token htoken
    have hfront : ¬ domain <:+: "https://api.".toList := by
      unfold domain
      rw [String.toList_ofList, String.toList_ofList]
      decide
    have hpath : ¬ bot <:+: [] := by decide
    refine ⟨⟨?_, ?_, ?_, ?_, by decide⟩, fun _ => .inr rfl⟩
    · exact List.forall_mem_singleton.2 hfront
    · exact List.forall_mem_singleton.2 hpath
    · exact List.forall_mem_singleton.2 htoken
    · exact List.forall_mem_nil _
  have hhides := redactTelegramToken_hides (htokens "12:ab".toList (by decide))
    (htokens "34:cd".toList (by decide)) rfl "/bot".toList
  have hurl : ∀ token : List Char, write [⟨"https://api.".toList, [], token⟩] "/getMe".toList =
      "https://api.telegram.org/bot".toList ++ (token ++ "/getMe".toList) := by
    intro token
    unfold write write domain bot
    rw [String.toList_ofList, String.toList_ofList, String.toList_ofList, String.toList_ofList,
      String.toList_ofList]
    rfl
  have hhidden : write ([⟨"https://api.".toList, [], "12:ab".toList⟩].map Group.hide)
      "/getMe".toList = "https://api.telegram.org/bot".toList ++ (redacted ++ "/getMe".toList) :=
    hurl redacted
  have hfirst : "https://api.telegram.org/bot".toList ++ ("12:ab".toList ++ "/getMe".toList) =
      "https://api.telegram.org/bot12:ab/getMe".toList := by
    rw [String.toList_ofList, String.toList_ofList, String.toList_ofList, String.toList_ofList]
    rfl
  have hsecond : "https://api.telegram.org/bot".toList ++ ("34:cd".toList ++ "/getMe".toList) =
      "https://api.telegram.org/bot34:cd/getMe".toList := by
    rw [String.toList_ofList, String.toList_ofList, String.toList_ofList, String.toList_ofList]
    rfl
  have hredacted : "https://api.telegram.org/bot".toList ++ (redacted ++ "/getMe".toList) =
      "https://api.telegram.org/bot<redacted>/getMe".toList := by
    unfold redacted
    rw [String.toList_ofList, String.toList_ofList, String.toList_ofList, String.toList_ofList]
    rfl
  rw [hurl, hurl, hhidden, hfirst, hsecond, hredacted] at hhides
  exact hhides

/-- A token that runs on into the rest takes it along. -/
theorem redactTelegramToken_takes_rest :
    ¬ ∀ (groups : List Group) (rest : List Char), Groups groups rest →
      redactTelegramToken (write groups rest) = write (groups.map Group.hide) rest := by
  intro h
  have hgroups : ∀ rest, ¬ domain <:+: rest → Groups [⟨[], [], "12".toList⟩] rest := by
    intro rest hrest
    refine ⟨?_, ?_, ?_, ?_, hrest⟩
    · exact List.forall_mem_singleton.2 (by decide)
    · exact List.forall_mem_singleton.2 (by decide)
    · exact List.forall_mem_singleton.2 (by decide)
    · exact List.forall_mem_nil _
  have hcode : redactTelegramToken (write [⟨[], [], "12".toList⟩] "34".toList) = _ :=
    @redactTelegramToken_write [⟨[], [], "1234".toList⟩] []
      ⟨⟨by decide, by decide, by decide, by decide, by decide⟩, fun _ => .inl rfl⟩
  have hclaim := h _ _ (hgroups "34".toList (by decide))
  rw [hcode] at hclaim
  exact absurd hclaim (by decide)

end RedactToken
end RustyHand
