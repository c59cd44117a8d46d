import Mathlib.Data.List.Perm.Basic
import RustyHand.Extensions.Vault
import RustyHand.Lib.JsonText

/-!
# What a new vault finds

After `init` and calls that change the secrets, a new `CredentialVault` on the same files.

* `entriesOf_contentOf`, `entriesOf_other`: what `load` does with what `save` wrote;
* `Saved`: an open vault whose secrets are in the file; every call keeps it;
* `VariableAgrees`: the variable holds the key that is found before it;
* `unlock_iff`: the new vault has what is stored if and only if the variable agrees.
-/

namespace RustyHand
namespace Vault

open Framing

/-! ### What is read back -/

variable {C : Crates} {s s' : State} {w w' : World} {k k' : Key} {draw : Draw}

theorem orVault_eq_ok {α : Type} {message : String} {x : Except String α} {a : α} :
    orVault message x = .ok a ↔ x = .ok a := by
  cases x <;> simp [orVault]

@[simp] theorem orVault_ok {α : Type} (message : String) (a : α) :
    orVault message (.ok a) = .ok a := rfl

@[simp] theorem decode_encode (C : Crates) (bytes : List UInt8) :
    C.decode (Base64.encode bytes) = .ok bytes := by
  rw [Crates.decode, Base64.decode_encode, Option.elim_some]

theorem decodeMasterKey_encode (C : Crates) (k : Key) :
    C.decodeMasterKey (Base64.encode k.1) = .ok k := by
  simp only [Crates.decodeMasterKey, decode_encode, orVault_ok]
  exact dif_pos k.2

theorem masked_masked (mask : Bytes 32) (bytes : List UInt8) :
    masked mask (masked mask bytes) = bytes := by
  refine List.ext_getElem (by simp [masked]) fun i _ _ => ?_
  simp only [masked, List.getElem_mapIdx]
  rw [UInt8.xor_assoc, UInt8.xor_self, UInt8.xor_zero]

theorem trim_encode (bytes : List UInt8) :
    Text.trim (Base64.encode bytes) = Base64.encode bytes := by
  have hall : Base64.digits.all (fun c => !Text.isWhitespace c) = true := by
    rw [Base64.digits_eq]
    decide
  have hdigits : ∀ c ∈ Base64.digits, Text.isWhitespace c = false := fun c hc => by
    simpa using List.all_eq_true.1 hall c hc
  refine Text.trim_eq_self fun c hc => ?_
  rw [Base64.encode, String.toList_ofList] at hc
  rcases Base64.mem_encodeChars hc with hc | rfl
  · exact hdigits c hc
  · decide

/-- A key that was put into the keyring is found there. -/
theorem loadKeyringKey_storeKeyringKey {keyB64 : String} (h : storeKeyringKey w keyB64 = some w') :
    loadKeyringKey w' = some keyB64 := by
  unfold storeKeyringKey at h
  split_ifs at h with hkeyring
  rw [← Option.some.inj h, loadKeyringKey, if_pos hkeyring]
  simp [trim_encode, masked_masked]

theorem contentOf_eq_ok {entries : Entries} {content : String}
    (h : C.contentOf entries k draw = .ok content) :
    ∃ plaintext derivedKey ciphertext, C.toVec entries = .ok plaintext ∧
      C.hashPassword k draw.salt.1 = .ok derivedKey ∧
      C.encrypt derivedKey draw.nonce plaintext = .ok ciphertext ∧
      C.toStringPretty
        { version := 1, salt := Base64.encode draw.salt.1, nonce := Base64.encode draw.nonce.1
          ciphertext := Base64.encode ciphertext } = .ok content := by
  unfold Crates.contentOf Crates.deriveKey at h
  cases hvec : C.toVec entries with
  | error e => rw [hvec] at h; cases h
  | ok plaintext =>
    cases hkey : C.hashPassword k draw.salt.1 with
    | error e => rw [hvec, hkey] at h; cases h
    | ok derivedKey =>
      cases hcipher : C.encrypt derivedKey draw.nonce plaintext with
      | error e =>
        simp only [hvec, hkey, orVault_ok, bind, Except.bind] at h
        rw [hcipher] at h
        cases h
      | ok ciphertext =>
        refine ⟨plaintext, derivedKey, ciphertext, rfl, rfl, hcipher, ?_⟩
        simp only [hvec, hkey, orVault_ok, bind, Except.bind] at h
        rw [hcipher] at h
        exact orVault_eq_ok.1 h

/-- What `load` does with what `save` wrote. -/
theorem entriesOf_content (hC : C.Correct) {ciphertext : List UInt8} {content : String}
    (h : C.toStringPretty
      { version := 1, salt := Base64.encode draw.salt.1, nonce := Base64.encode draw.nonce.1
        ciphertext := Base64.encode ciphertext } = .ok content) :
    C.entriesOf content k' = (C.deriveKey k' draw.salt.1).bind fun derivedKey =>
      (orVault "Decryption failed: " (C.decrypt derivedKey draw.nonce ciphertext)).bind
        fun plaintext => (orVault "Vault data parse failed: " (C.fromSlice plaintext)).bind
          fun secrets =>
            .ok (secrets.foldl (fun entries p => Table.upsert Prod.fst p entries) []) := by
  unfold Crates.entriesOf
  rw [hC.fromStr_toStringPretty _ _ h]
  simp only [orVault_ok, decode_encode, bind, Except.bind, ne_eq, not_true_eq_false, if_false]
  cases C.deriveKey k' draw.salt.1 with
  | error e => rfl
  | ok derivedKey => exact dif_pos draw.nonce.2

theorem lookup_foldl_upsert {entries : Entries} (h : Table.UniqueKeys Prod.fst entries)
    (key : String) :
    Table.lookup Prod.fst key (entries.foldl (fun l p => Table.upsert Prod.fst p l) []) =
      Table.lookup Prod.fst key entries := by
  have happend : ∀ l : Entries, Table.UniqueKeys Prod.fst (l ++ entries) →
      entries.foldl (fun l p => Table.upsert Prod.fst p l) l = l ++ entries := by
    clear h
    induction entries with
    | nil => simp
    | cons p entries ih =>
      intro l hl
      have hp : p.1 ∉ l.map Prod.fst := by
        rw [Table.UniqueKeys, List.map_append, List.nodup_append] at hl
        exact fun hp => hl.2.2 _ hp _ (by simp) rfl
      rw [List.foldl_cons, Table.upsert_of_not_mem hp, ih _ (by simpa using hl)]
      simp
  rw [happend [] (by simpa using h), List.nil_append]

theorem lookup_perm {entries entries' : Entries} (h : Table.UniqueKeys Prod.fst entries)
    (hp : entries'.Perm entries) (key : String) :
    Table.lookup Prod.fst key entries' = Table.lookup Prod.fst key entries := by
  have h' : Table.UniqueKeys Prod.fst entries' := (hp.map Prod.fst).nodup_iff.2 h
  refine Option.ext fun p => ?_
  rw [Table.lookup_eq_some_iff h', Table.lookup_eq_some_iff h, hp.mem_iff]

/-- What was written under a key is read under it. -/
theorem entriesOf_contentOf (hC : C.Correct) {entries : Entries} {content : String}
    (hunique : Table.UniqueKeys Prod.fst entries) (h : C.contentOf entries k draw = .ok content) :
    ∃ entries', C.entriesOf content k = .ok entries' ∧
      ∀ key, Table.lookup Prod.fst key entries' = Table.lookup Prod.fst key entries := by
  obtain ⟨plaintext, derivedKey, ciphertext, hvec, hkey, hcipher, hcontent⟩ := contentOf_eq_ok h
  obtain ⟨secrets, hsecrets, hperm⟩ := hC.fromSlice_toVec _ _ hunique hvec
  refine ⟨secrets.foldl (fun entries p => Table.upsert Prod.fst p entries) [], ?_, fun key => ?_⟩
  · rw [entriesOf_content hC hcontent, Crates.deriveKey, hkey, orVault_ok, Except.bind,
      hC.decrypt_encrypt _ _ _ _ hcipher, orVault_ok, Except.bind, hsecrets, orVault_ok,
      Except.bind]
  · rw [lookup_foldl_upsert ((hperm.map Prod.fst).nodup_iff.2 hunique), lookup_perm hunique hperm]

/-- What was written under a key is not read under another. -/
theorem entriesOf_other (hC : C.Correct) {entries : Entries} {content : String}
    (h : C.contentOf entries k draw = .ok content) (hk : C.Separates k k') :
    ∃ e, C.entriesOf content k' = .error e := by
  obtain ⟨plaintext, derivedKey, ciphertext, -, hkey, hcipher, hcontent⟩ := contentOf_eq_ok h
  rw [entriesOf_content hC hcontent, Crates.deriveKey]
  cases hother : C.hashPassword k' draw.salt.1 with
  | error e => exact ⟨_, rfl⟩
  | ok d' =>
    obtain ⟨e, he⟩ := hk _ _ _ _ _ _ hkey hother hcipher
    rw [orVault_ok, Except.bind, he]
    exact ⟨_, rfl⟩

/-! ### Runs -/

/-- A vault that is open under a key, and whose secrets are in the file. -/
structure Saved (C : Crates) (k : Key) (s : State) : Prop where
  unlocked : s.vault.unlocked = true
  cachedKey : s.vault.cachedKey = some k
  unique : Table.UniqueKeys Prod.fst s.vault.entries
  file : ∃ content draw, s.world.file = some content ∧
    C.contentOf s.vault.entries k draw = .ok content

/-- A world but for the file of the vault. -/
def World.rest (w : World) : World := { w with file := none }

theorem resolveMasterKey_cached {entries : Entries} {unlocked : Bool} {cached : Option Key}
    (h : cached = some k) : C.resolveMasterKey ⟨entries, unlocked, cached⟩ w = .ok k := by
  rw [Crates.resolveMasterKey, h]

theorem save_eq_ok (h : C.save s k draw = (s', .ok ())) :
    s'.vault = s.vault ∧ s'.world.rest = s.world.rest ∧
      ∃ content, s'.world.file = some content ∧
        C.contentOf s.vault.entries k draw = .ok content := by
  unfold Crates.save at h
  cases hcontent : C.contentOf s.vault.entries k draw with
  | error e => rw [hcontent] at h; cases h
  | ok content =>
    rw [hcontent] at h
    cases h
    exact ⟨rfl, rfl, content, rfl, rfl⟩

theorem get_upsert (v : CredentialVault) (key value : String) :
    ({ v with entries := Table.upsert Prod.fst (key, value) v.entries } : CredentialVault).get =
      Function.update v.get key (some value) := by
  funext name
  rw [CredentialVault.get, Table.lookup_upsert, Function.update_apply]
  split_ifs <;> rfl

theorem get_erase (v : CredentialVault) (hunique : Table.UniqueKeys Prod.fst v.entries)
    (key : String) :
    ({ v with entries := Table.erase Prod.fst key v.entries } : CredentialVault).get =
      Function.update v.get key none := by
  funext name
  rw [CredentialVault.get, Table.erase, hunique.lookup_filter, Function.update_apply,
    CredentialVault.get]
  cases hrow : Table.lookup Prod.fst name v.entries with
  | none => simp
  | some p =>
    obtain ⟨name', value⟩ := p
    obtain rfl : name' = name := (Table.mem_of_lookup hrow).2
    by_cases hkey : name' = key
    · simp [hkey]
    · simp [hkey]

theorem Saved.set (h : Saved C k s) {key value : String}
    (hset : C.set s key value draw = (s', .ok ())) :
    Saved C k s' ∧ s'.world.rest = s.world.rest ∧
      s'.vault.get = Function.update s.vault.get key (some value) := by
  rw [Crates.set, if_neg (by simp [h.unlocked])] at hset
  dsimp only at hset
  rw [resolveMasterKey_cached h.cachedKey] at hset
  obtain ⟨hvault, hrest, content, hfile, hcontent⟩ := save_eq_ok hset
  refine ⟨⟨?_, ?_, ?_, content, draw, hfile, ?_⟩, hrest, ?_⟩
  · rw [hvault]
    exact h.unlocked
  · rw [hvault]
    exact h.cachedKey
  · rw [hvault]
    exact h.unique.upsert
  · rw [hvault]
    exact hcontent
  · rw [hvault]
    exact get_upsert _ _ _

theorem Saved.remove (h : Saved C k s) {key : String} {removed : Bool}
    (hremove : C.remove s key draw = (s', .ok removed)) :
    Saved C k s' ∧ s'.world.rest = s.world.rest ∧
      s'.vault.get = Function.update s.vault.get key none := by
  rw [Crates.remove, if_neg (by simp [h.unlocked])] at hremove
  dsimp only at hremove
  rw [resolveMasterKey_cached h.cachedKey] at hremove
  split_ifs at hremove with hmem
  · dsimp only at hremove
    split at hremove
    · cases hremove
    · rename_i t hsave
      obtain ⟨rfl, -⟩ := Prod.mk.inj hremove
      obtain ⟨hvault, hrest, content, hfile, hcontent⟩ := save_eq_ok hsave
      refine ⟨⟨?_, ?_, ?_, content, draw, hfile, ?_⟩, hrest, ?_⟩
      · rw [hvault]
        exact h.unlocked
      · rw [hvault]
        exact h.cachedKey
      · rw [hvault]
        exact h.unique.erase
      · rw [hvault]
        exact hcontent
      · rw [hvault]
        exact get_erase _ h.unique _
  · -- nothing was stored under the name, and nothing is written
    obtain ⟨rfl, -⟩ := Prod.mk.inj hremove
    have hentries : Table.erase Prod.fst key s.vault.entries = s.vault.entries := by
      refine List.filter_eq_self.2 fun p hp => ?_
      have hne : p.1 ≠ key := fun hkey => hmem (hkey ▸ List.mem_map_of_mem hp)
      simp [hne]
    obtain ⟨content, draw', hfile, hcontent⟩ := h.file
    refine ⟨⟨h.unlocked, h.cachedKey, h.unique.erase, content, draw', hfile, ?_⟩, rfl, ?_⟩
    · rw [← hcontent]
      exact congrArg (C.contentOf · k draw') hentries
    · exact get_erase _ h.unique _

theorem Saved.call (h : Saved C k s) {c : Call} (hcall : C.call s draw c = some s') :
    Saved C k s' ∧ s'.world.rest = s.world.rest ∧ s'.vault.get = stored s.vault.get [c] := by
  cases c with
  | set key value =>
    rw [Crates.call] at hcall
    split at hcall
    · rename_i t hset
      cases hcall
      exact h.set hset
    · cases hcall
  | remove key =>
    rw [Crates.call] at hcall
    split at hcall
    · rename_i t removed hremove
      cases hcall
      exact h.remove hremove
    · cases hcall

theorem stored_cons (before : String → Option String) (c : Call) (cs : List Call) :
    stored before (c :: cs) = stored (stored before [c]) cs := by
  cases c <;> rfl

theorem Saved.calls (h : Saved C k s) {cs : List (Call × Draw)} (hcalls : C.calls s cs = some s') :
    Saved C k s' ∧ s'.world.rest = s.world.rest ∧
      s'.vault.get = stored s.vault.get (cs.map Prod.fst) := by
  induction cs generalizing s with
  | nil =>
    cases hcalls
    exact ⟨h, rfl, rfl⟩
  | cons c cs ih =>
    obtain ⟨t, ht, hrest⟩ := Option.bind_eq_some_iff.1 hcalls
    obtain ⟨hsaved, hworld, hget⟩ := h.call ht
    obtain ⟨hsaved', hworld', hget'⟩ := ih hsaved hrest
    refine ⟨hsaved', hworld'.trans hworld, ?_⟩
    rw [hget', hget]
    exact (stored_cons _ _ _).symm

theorem init_eq_ok {fresh : Key} (h : C.init s fresh draw = (s', .ok ())) :
    ∃ w k, C.initKey s.world fresh = (w, .ok k) ∧ Saved C k s' ∧ s'.world.rest = w.rest ∧
      s'.vault.get = fun _ => none := by
  unfold Crates.init at h
  split_ifs at h with hfile
  · cases h
  · split at h
    · cases h
    · rename_i w k hkey
      dsimp only at h
      split at h
      · cases h
      · rename_i t hsave
        cases h
        obtain ⟨hvault, hrest, content, hfile, hcontent⟩ := save_eq_ok hsave
        refine ⟨w, k, hkey, ⟨?_, rfl, ?_, content, draw, hfile, ?_⟩, hrest, ?_⟩
        · rw [hvault]
        · rw [hvault]
          exact List.nodup_nil
        · rw [hvault]
          exact hcontent
        · rw [hvault]
          rfl

theorem resolveMasterKey_rest (v : CredentialVault) (h : w'.rest = w.rest) :
    C.resolveMasterKey v w' = C.resolveMasterKey v w := by
  have hload : loadKeyringKey w' = loadKeyringKey w := by
    have hrest : loadKeyringKey w'.rest = loadKeyringKey w.rest := congrArg loadKeyringKey h
    exact hrest
  have hfile : w'.rest.keyFile = w.rest.keyFile := congrArg World.keyFile h
  have henv : w'.rest.vaultKeyEnv = w.rest.vaultKeyEnv := congrArg World.vaultKeyEnv h
  unfold Crates.resolveMasterKey
  rw [hload, show w'.keyFile = w.keyFile from hfile, show w'.vaultKeyEnv = w.vaultKeyEnv from henv]

/-- A new vault is opened with the key that it finds first. -/
theorem Saved.opens_iff (h : Saved C k s) (hC : C.Correct)
    (hother : ∀ k', C.resolveMasterKey {} s.world = .ok k' → k' ≠ k → C.Separates k k') :
    (∃ t, C.unlock ⟨{}, s.world⟩ = (t, .ok ()) ∧ t.vault.get = s.vault.get) ↔
      C.resolveMasterKey {} s.world = .ok k := by
  obtain ⟨content, draw, hfile, hcontent⟩ := h.file
  simp only [Crates.unlock, hfile, Bool.false_eq_true, if_false]
  cases hresolve : C.resolveMasterKey {} s.world with
  | error e => simp
  | ok k' =>
    by_cases hk : k' = k
    · obtain ⟨entries, hentries, hlookup⟩ := entriesOf_contentOf hC h.unique hcontent
      subst hk
      simp only [hentries, iff_true]
      refine ⟨_, rfl, ?_⟩
      funext key
      exact congrArg (Option.map Prod.snd) (hlookup key)
    · obtain ⟨e, he⟩ := entriesOf_other hC hcontent (hother k' hresolve hk)
      simp [he, hk]

/-- A key that is in the keyring, in the key file, or in the variable. -/
def Crates.Holds (C : Crates) (w : World) (k : Key) : Prop :=
  (∃ keyB64, w.vaultKeyEnv = some keyB64 ∧ C.decodeMasterKey keyB64 = .ok k) ∨
    (∃ keyB64, loadKeyringKey w = some keyB64 ∧ C.decodeMasterKey keyB64 = .ok k) ∨
      ∃ contents, w.keyFile = some contents ∧ C.decodeMasterKey (Text.trim contents) = .ok k

/-- If the variable is set, its key is the one in the keyring, and, where the keyring has none, the
one in the key file. -/
def Crates.VariableAgrees (C : Crates) (w : World) : Prop :=
  ∀ keyB64, w.vaultKeyEnv = some keyB64 →
    (∀ other, loadKeyringKey w = some other → C.decodeMasterKey other = C.decodeMasterKey keyB64) ∧
    (loadKeyringKey w = none → ∀ contents, w.keyFile = some contents →
      C.decodeMasterKey (Text.trim contents) = C.decodeMasterKey keyB64)

/-- The key that is found first is the one of `init` if and only if the variable agrees. -/
theorem resolveMasterKey_initKey {fresh : Key} (h : C.initKey w fresh = (w', .ok k)) :
    C.resolveMasterKey {} w' = .ok k ↔ C.VariableAgrees w := by
  unfold Crates.initKey at h
  unfold Crates.VariableAgrees
  cases hvar : w.vaultKeyEnv with
  | some keyB64 =>
    rw [hvar] at h
    obtain ⟨rfl, hkey⟩ := Prod.mk.inj h
    unfold Crates.resolveMasterKey
    cases hload : loadKeyringKey w with
    | some other => simp [hkey]
    | none =>
      cases hfile : w.keyFile with
      | some contents => simp [hkey]
      | none => simp [hvar, hkey]
  | none =>
    simp only [reduceCtorEq, false_implies, implies_true, iff_true]
    rw [hvar] at h
    cases hload : loadKeyringKey w with
    | some other =>
      rw [hload] at h
      obtain ⟨rfl, hkey⟩ := Prod.mk.inj h
      rw [Crates.resolveMasterKey, hload]
      exact hkey
    | none =>
      rw [hload] at h
      cases hstore : storeKeyringKey w (Base64.encode fresh.1) with
      | some stored =>
        simp only [hstore, Prod.mk.injEq, Except.ok.injEq] at h
        obtain ⟨rfl, rfl⟩ := h
        rw [Crates.resolveMasterKey, loadKeyringKey_storeKeyringKey hstore]
        exact decodeMasterKey_encode C fresh
      | none =>
        -- the keyring takes no key, and the key file does
        simp only [hstore, Prod.mk.injEq, Except.ok.injEq] at h
        obtain ⟨rfl, rfl⟩ := h
        have hload' : loadKeyringKey
            { w with vaultKeyEnv := none, keyFile := some (Base64.encode fresh.1) } = none := hload
        rw [Crates.resolveMasterKey, hload']
        simp only [trim_encode]
        exact decodeMasterKey_encode C fresh

/-- The key that is found first is `init`'s own, or was there before. -/
theorem holds_of_resolve {fresh : Key} (h : C.initKey w fresh = (w', .ok k)) {k' : Key}
    (hk' : C.resolveMasterKey {} w' = .ok k') (hne : k' ≠ k) : C.Holds w k ∧ C.Holds w k' := by
  have hagrees : ¬ C.VariableAgrees w := by
    rw [← resolveMasterKey_initKey h, hk']
    exact fun hk => hne (Except.ok.inj hk)
  unfold Crates.initKey at h
  cases hvar : w.vaultKeyEnv with
  | none => exact absurd (fun keyB64 hkey => by rw [hvar] at hkey; cases hkey) hagrees
  | some keyB64 =>
    rw [hvar] at h
    obtain ⟨rfl, hkey⟩ := Prod.mk.inj h
    refine ⟨Or.inl ⟨keyB64, hvar, hkey⟩, ?_⟩
    unfold Crates.resolveMasterKey at hk'
    cases hload : loadKeyringKey w with
    | some other =>
      rw [hload] at hk'
      exact Or.inr (Or.inl ⟨other, hload, hk'⟩)
    | none =>
      cases hfile : w.keyFile with
      | some contents =>
        rw [hload, hfile] at hk'
        exact Or.inr (Or.inr ⟨contents, hfile, hk'⟩)
      | none =>
        rw [hload, hfile, hvar] at hk'
        exact Or.inl ⟨keyB64, hvar, hk'⟩

/-- After `init` and any calls that returned `Ok`, a new vault has exactly what is stored, if and
only if the variable agrees with the other places of the key. -/
theorem unlock_iff (hC : C.Correct) {fresh : Key} {s₀ : State} {cs : List (Call × Draw)}
    (hkeys : ∀ k k', C.Holds w k → C.Holds w k' → k ≠ k' → C.Separates k k')
    (hinit : C.init ⟨{}, w⟩ fresh draw = (s₀, .ok ())) (hcalls : C.calls s₀ cs = some s) :
    (∃ t, C.unlock ⟨{}, s.world⟩ = (t, .ok ()) ∧
      t.vault.get = stored (fun _ => none) (cs.map Prod.fst)) ↔ C.VariableAgrees w := by
  obtain ⟨w₁, k, hkey, hsaved₀, hrest₀, hget₀⟩ := init_eq_ok hinit
  obtain ⟨hsaved, hrest, hget⟩ := hsaved₀.calls hcalls
  have hresolve : C.resolveMasterKey {} s.world = C.resolveMasterKey {} w₁ :=
    resolveMasterKey_rest {} (hrest.trans hrest₀)
  rw [← hget₀, ← hget, ← resolveMasterKey_initKey hkey, ← hresolve]
  refine hsaved.opens_iff hC fun k' hk' hne => ?_
  obtain ⟨hk, hk''⟩ := holds_of_resolve hkey (hresolve ▸ hk') hne
  exact hkeys k k' hk hk'' hne.symm

/-! ### A key in the variable, and another in the key file -/

/-- What a text of `VaultEntries` starts with. -/
def secretsField : List Char := "\x7b\"secrets\":".toList

/-- What stands before the fields of a `VaultFile`, and at its end. -/
def versionField : List Char := "\x7b\n  \"version\": ".toList

def saltField : List Char := "\n  \"salt\": ".toList

def nonceField : List Char := ",\n  \"nonce\": ".toList

def ciphertextField : List Char := ",\n  \"ciphertext\": ".toList

def fileEnd : List Char := "\n\x7d".toList

/-- The text of `VaultEntries`. -/
def entriesText (entries : Entries) : String :=
  String.ofList (secretsField ++ (JsonText.object entries ++ ['}']))

/-- The secrets of a text of `VaultEntries`. -/
def readEntries (text : String) : Option Entries := do
  let rest ← JsonText.strip secretsField text.toList
  let (entries, rest) ← JsonText.readObject rest
  if rest = ['}'] then some entries else none

/-- The text of a `VaultFile`. -/
def fileText (file : VaultFile) : String :=
  String.ofList (versionField ++ (JsonText.decimal file.version.toNat ++ ',' :: (saltField ++
    (JsonText.quote file.salt ++ (nonceField ++ (JsonText.quote file.nonce ++
      (ciphertextField ++ (JsonText.quote file.ciphertext ++ fileEnd))))))))

/-- The file of a text of a `VaultFile`. -/
def readFile (text : String) : Option VaultFile := do
  let rest ← JsonText.strip versionField text.toList
  let (version, rest) ← JsonText.readDecimal rest
  let rest ← JsonText.strip [','] rest
  let rest ← JsonText.strip saltField rest
  let (salt, rest) ← JsonText.unquote rest
  let rest ← JsonText.strip nonceField rest
  let (nonce, rest) ← JsonText.unquote rest
  let rest ← JsonText.strip ciphertextField rest
  let (ciphertext, rest) ← JsonText.unquote rest
  if rest = fileEnd then
    some { version := UInt8.ofNat version, salt := salt, nonce := nonce, ciphertext := ciphertext }
  else none

theorem readEntries_entriesText (entries : Entries) :
    readEntries (entriesText entries) = some entries := by
  rw [readEntries, entriesText, String.toList_ofList, JsonText.strip_append]
  simp [JsonText.readObject_object]

theorem readFile_fileText (file : VaultFile) : readFile (fileText file) = some file := by
  rw [readFile, fileText, String.toList_ofList, JsonText.strip_append]
  simp only [bind, Option.bind]
  rw [JsonText.readDecimal_decimal _ (by decide), ← List.singleton_append]
  simp only [JsonText.strip_append, JsonText.unquote_quote, if_true, UInt8.ofNat_toNat]

/-- Crates that write JSON as it is, and that encrypt by putting the key in front. -/
def keyInFront : Crates where
  encrypt k _ plaintext := .ok (k.1 ++ plaintext)
  decrypt k _ ciphertext :=
    if ciphertext.take 32 = k.1 then .ok (ciphertext.drop 32) else .error "aead::Error"
  hashPassword k _ := .ok k
  toVec entries := .ok (utf8 (entriesText entries))
  fromSlice bytes := ((fromUtf8 bytes).bind readEntries).elim (.error "expected value") .ok
  toStringPretty file := .ok (fileText file)
  fromStr text := (readFile text).elim (.error "expected value") .ok
  base64Error _ := "Invalid padding"

theorem keyInFront_correct : keyInFront.Correct where
  decrypt_encrypt := by
    rintro ⟨k, hk⟩ nonce plain cipher ⟨rfl⟩
    simp [keyInFront, hk]
  fromSlice_toVec := by
    rintro entries bytes - ⟨rfl⟩
    exact ⟨entries, by simp [keyInFront, readEntries_entriesText], List.Perm.refl _⟩
  fromStr_toStringPretty := by
    rintro file text ⟨rfl⟩
    simp [keyInFront, readFile_fileText]

theorem keyInFront_separates {k k' : Key} (hne : k ≠ k') : keyInFront.Separates k k' := by
  rintro salt d d' nonce plain cipher ⟨rfl⟩ ⟨rfl⟩ ⟨rfl⟩
  refine ⟨"aead::Error", if_neg fun htake => hne ?_⟩
  rw [List.take_left' k.2] at htake
  exact Subtype.ext htake

/-- A key of 32 equal bytes. -/
def keyOf (b : UInt8) : Key := ⟨List.replicate 32 b, List.length_replicate ..⟩

/-- A world with a variable, and perhaps a key file. -/
def worldOf (keyFile : Option String) : World :=
  { vaultKeyEnv := some (Base64.encode (keyOf 1).1), keyring := none, mask := keyOf 0
    keyFile := keyFile, file := none }

/-- Salts and nonces that are all zero. -/
def zeroDraw : Draw := ⟨⟨List.replicate 16 0, rfl⟩, ⟨List.replicate 12 0, rfl⟩⟩

theorem init_of_save {fresh key : Key} {s₁ : State} (hfile : ¬ s.world.file.isSome = true)
    (hkey : C.initKey s.world fresh = (w, .ok key))
    (hsave : C.save ⟨{ s.vault with entries := [], unlocked := true }, w⟩ key draw =
      (s₁, .ok ())) :
    C.init s fresh draw =
      ({ s₁ with vault := { s₁.vault with cachedKey := some key } }, .ok ()) := by
  rw [Crates.init, if_neg hfile, hkey]
  dsimp only
  rw [hsave]

theorem save_keyInFront (s : State) (k : Key) (draw : Draw) :
    ∃ s', keyInFront.save s k draw = (s', .ok ()) := ⟨_, rfl⟩

theorem init_worldOf (keyFile : Option String) :
    ∃ s, keyInFront.init ⟨{}, worldOf keyFile⟩ (keyOf 0) zeroDraw = (s, .ok ()) := by
  have hvar : (worldOf keyFile).vaultKeyEnv = some (Base64.encode (keyOf 1).1) := rfl
  have hkey : keyInFront.initKey (worldOf keyFile) (keyOf 0) =
      (worldOf keyFile, .ok (keyOf 1)) := by
    rw [Crates.initKey, hvar]
    exact congrArg (Prod.mk _) (decodeMasterKey_encode keyInFront (keyOf 1))
  obtain ⟨s, hsave⟩ := save_keyInFront ⟨{ entries := [], unlocked := true }, worldOf keyFile⟩
    (keyOf 1) zeroDraw
  exact ⟨_, init_of_save nofun hkey hsave⟩

theorem unlock_variable : ∃ s₀ s t,
    keyInFront.init ⟨{}, worldOf none⟩ (keyOf 0) zeroDraw = (s₀, .ok ()) ∧
    keyInFront.calls s₀ [(.set "TOKEN" "abc", zeroDraw)] = some s ∧
    keyInFront.unlock ⟨{}, s.world⟩ = (t, .ok ()) ∧
    t.vault.get = stored (fun _ => none) [.set "TOKEN" "abc"] := by
  obtain ⟨s₀, hinit⟩ := init_worldOf none
  obtain ⟨w, k, hkey, hsaved, -⟩ := init_eq_ok hinit
  have hcalls : ∃ s, keyInFront.calls s₀ [(.set "TOKEN" "abc", zeroDraw)] = some s := by
    rw [Crates.calls, Crates.call, Crates.set, if_neg (by simp [hsaved.unlocked])]
    dsimp only
    rw [resolveMasterKey_cached hsaved.cachedKey]
    exact ⟨_, rfl⟩
  obtain ⟨s, hs⟩ := hcalls
  obtain ⟨t, ht, hget⟩ := (unlock_iff keyInFront_correct
    (fun k k' _ _ hne => keyInFront_separates hne) hinit hs).2 (by
      rintro keyB64 -
      refine ⟨fun other hother => ?_, fun _ contents hcontents => ?_⟩
      · cases hother
      · cases hcontents)
  exact ⟨s₀, s, t, hinit, hs, ht, hget⟩

/-- Every place of the key has none, or a valid one. -/
def Crates.ValidKeys (C : Crates) (w : World) : Prop :=
  (∀ keyB64, w.vaultKeyEnv = some keyB64 → ∃ k, C.decodeMasterKey keyB64 = .ok k) ∧
    (w.keyring.isSome → ∃ keyB64 k, loadKeyringKey w = some keyB64 ∧
      C.decodeMasterKey keyB64 = .ok k) ∧
    ∀ contents, w.keyFile = some contents → ∃ k, C.decodeMasterKey (Text.trim contents) = .ok k

theorem unlock_loses :
    ¬ ∀ (C : Crates) (w : World) (fresh : Key) (draw : Draw) (s₀ s : State)
      (cs : List (Call × Draw)),
      C.Correct → C.ValidKeys w → (∀ k k', C.Holds w k → C.Holds w k' → k ≠ k' → C.Separates k k') →
      C.init ⟨{}, w⟩ fresh draw = (s₀, .ok ()) → C.calls s₀ cs = some s →
      ∃ t, C.unlock ⟨{}, s.world⟩ = (t, .ok ()) ∧
        t.vault.get = stored (fun _ => none) (cs.map Prod.fst) := by
  intro h
  have hother :
      keyInFront.decodeMasterKey (Text.trim (Base64.encode (keyOf 2).1)) = .ok (keyOf 2) := by
    rw [trim_encode, decodeMasterKey_encode]
  have hvar := decodeMasterKey_encode keyInFront (keyOf 1)
  obtain ⟨s₀, hinit⟩ := init_worldOf (some (Base64.encode (keyOf 2).1))
  obtain ⟨w, k, hkey, hsaved, hrest, hget₀⟩ := init_eq_ok hinit
  have hvalid : keyInFront.ValidKeys (worldOf (some (Base64.encode (keyOf 2).1))) := by
    refine ⟨?_, nofun, ?_⟩
    · rintro keyB64 ⟨rfl⟩
      exact ⟨_, hvar⟩
    · rintro contents ⟨rfl⟩
      exact ⟨_, hother⟩
  obtain ⟨t, ht, hget⟩ := h keyInFront _ (keyOf 0) zeroDraw s₀ s₀ [] keyInFront_correct hvalid
    (fun k k' _ _ hne => keyInFront_separates hne) hinit rfl
  have hresolve := (hsaved.opens_iff keyInFront_correct
    fun k' _ hne => keyInFront_separates hne.symm).1 ⟨t, ht, hget.trans hget₀.symm⟩
  rw [resolveMasterKey_rest _ hrest, resolveMasterKey_initKey hkey] at hresolve
  have hequal := (hresolve _ rfl).2 rfl _ rfl
  rw [hother, hvar] at hequal
  exact absurd (Except.ok.inj hequal) (by decide)

end Vault
end RustyHand
