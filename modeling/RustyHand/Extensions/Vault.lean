import RustyHand.Lib.Base64
import RustyHand.Lib.Framing
import RustyHand.Lib.Table
import RustyHand.Types.Text

/-!
# The credential vault

`CredentialVault` of `rusty-hand-extensions/src/vault.rs`: an encrypted file of secrets, and the
three places where its master key may be: the keyring file, the key file beside the vault, and a
variable.

* `Crates`: encryption, key derivation and JSON; `Crates.Correct`, `Crates.Separates`;
* `World`: the files and the variable; `resolveMasterKey`, `contentOf`, `entriesOf`;
* `init`, `unlock`, `set`, `remove`; `calls`: calls that all return `Ok`; `stored`: what they should
  leave.
-/

namespace RustyHand
namespace Vault

open Framing

/-- A string of so many bytes. -/
abbrev Bytes (n : ℕ) : Type := { bytes : List UInt8 // bytes.length = n }

/-- A master key, or a key derived from one. -/
abbrev Key : Type := Bytes 32

/-- `ExtensionError`, as far as the vault returns it. -/
inductive ExtensionError
  | vault (message : String)
  | vaultLocked
  | io (message : String)

/-- `VaultFile`. -/
structure VaultFile where
  version : UInt8
  salt : String
  nonce : String
  ciphertext : String

/-- The secrets by their names. -/
abbrev Entries : Type := List (String × String)

/-- What the vault takes from other crates, with the texts of their errors. -/
structure Crates where
  /-- `Aes256Gcm::encrypt`. -/
  encrypt : Key → Bytes 12 → List UInt8 → Except String (List UInt8)
  /-- `Aes256Gcm::decrypt`. -/
  decrypt : Key → Bytes 12 → List UInt8 → Except String (List UInt8)
  /-- `Argon2::hash_password_into`. -/
  hashPassword : Key → List UInt8 → Except String Key
  /-- `serde_json::to_vec`, of `VaultEntries`. -/
  toVec : Entries → Except String (List UInt8)
  /-- `serde_json::from_slice`, to `VaultEntries`. -/
  fromSlice : List UInt8 → Except String Entries
  /-- `serde_json::to_string_pretty`, of a `VaultFile`. -/
  toStringPretty : VaultFile → Except String String
  /-- `serde_json::from_str`, to a `VaultFile`. -/
  fromStr : String → Except String VaultFile
  /-- The error of a text that is not base64. -/
  base64Error : String → String

/-- Encryption and JSON, as documented: what was written is read back. -/
structure Crates.Correct (C : Crates) : Prop where
  decrypt_encrypt : ∀ k nonce plain cipher, C.encrypt k nonce plain = .ok cipher →
    C.decrypt k nonce cipher = .ok plain
  fromSlice_toVec : ∀ entries bytes, Table.UniqueKeys Prod.fst entries →
    C.toVec entries = .ok bytes →
    ∃ entries', C.fromSlice bytes = .ok entries' ∧ entries'.Perm entries
  fromStr_toStringPretty : ∀ file text, C.toStringPretty file = .ok text → C.fromStr text = .ok file

/-- What is encrypted under one master key is not decrypted under another. -/
def Crates.Separates (C : Crates) (k k' : Key) : Prop :=
  ∀ salt d d' nonce plain cipher, C.hashPassword k salt = .ok d → C.hashPassword k' salt = .ok d' →
    C.encrypt d nonce plain = .ok cipher → ∃ e, C.decrypt d' nonce cipher = .error e

/-- The files that the vault knows, and what it takes from the environment of the process. -/
structure World where
  /-- `RUSTY_HAND_VAULT_KEY`. -/
  vaultKeyEnv : Option String
  /-- Whether the program is built with a keyring, as it is outside of tests. -/
  hasKeyring : Bool := true
  /-- `.keyring`. -/
  keyring : Option String
  /-- The hash of `machine_fingerprint` and the name of the service. -/
  mask : Bytes 32
  /-- `vault-key.b64`. -/
  keyFile : Option String
  /-- `vault.enc`. -/
  file : Option String

/-- `CredentialVault`, without its path. -/
structure CredentialVault where
  entries : Entries := []
  unlocked : Bool := false
  cachedKey : Option Key := none

/-- What one write draws at random. -/
structure Draw where
  salt : Bytes 16
  nonce : Bytes 12

/-! ### Master keys -/

/-- An error of a crate, behind what the vault says to it. -/
def orVault {α : Type} (message : String) : Except String α → Except ExtensionError α
  | .ok a => .ok a
  | .error e => .error (.vault (message ++ e))

/-- `base64::Engine::decode`. -/
def Crates.decode (C : Crates) (s : String) : Except String (List UInt8) :=
  (Base64.decode s).elim (.error (C.base64Error s)) .ok

/-- `decode_master_key`. -/
def Crates.decodeMasterKey (C : Crates) (keyB64 : String) : Except ExtensionError Key := do
  let bytes ← orVault "Key decode failed: " (C.decode keyB64)
  if h : bytes.length = 32 then return ⟨bytes, h⟩
  else .error (.vault ("Invalid key length: expected 32, got " ++ toString bytes.length))

/-- The bytes with those of the mask, over and over. -/
def masked (mask : Bytes 32) (bytes : List UInt8) : List UInt8 :=
  bytes.mapIdx fun i b => b ^^^ mask.1.getD (i % 32) 0

/-- `store_keyring_key`. -/
def storeKeyringKey (w : World) (keyB64 : String) : Option World :=
  if w.hasKeyring then
    some { w with keyring := some (Base64.encode (masked w.mask (utf8 keyB64))) }
  else none

/-- `load_keyring_key`. -/
def loadKeyringKey (w : World) : Option String :=
  if w.hasKeyring then do
    let encoded ← w.keyring
    let obfuscated ← Base64.decode (Text.trim encoded)
    fromUtf8 (masked w.mask obfuscated)
  else none

/-- `resolve_master_key`. -/
def Crates.resolveMasterKey (C : Crates) (v : CredentialVault) (w : World) :
    Except ExtensionError Key :=
  match v.cachedKey with
  | some cached => .ok cached
  | none =>
    match loadKeyringKey w with
    | some keyB64 => C.decodeMasterKey keyB64
    | none =>
      match w.keyFile with
      | some contents => C.decodeMasterKey (Text.trim contents)
      | none =>
        match w.vaultKeyEnv with
        | some keyB64 => C.decodeMasterKey keyB64
        | none => .error .vaultLocked

/-! ### The file -/

/-- `derive_key`. -/
def Crates.deriveKey (C : Crates) (masterKey : Key) (salt : List UInt8) :
    Except ExtensionError Key :=
  orVault "Key derivation failed: " (C.hashPassword masterKey salt)

/-- `save`, up to the write: the text of the file. -/
def Crates.contentOf (C : Crates) (entries : Entries) (masterKey : Key) (draw : Draw) :
    Except ExtensionError String := do
  let plaintext ← orVault "Serialization failed: " (C.toVec entries)
  let derivedKey ← C.deriveKey masterKey draw.salt.1
  let ciphertext ← orVault "Encryption failed: " (C.encrypt derivedKey draw.nonce plaintext)
  orVault "Vault file serialization failed: " (C.toStringPretty
    { version := 1, salt := Base64.encode draw.salt.1, nonce := Base64.encode draw.nonce.1
      ciphertext := Base64.encode ciphertext })

/-- `load`, from the text of the file. -/
def Crates.entriesOf (C : Crates) (content : String) (masterKey : Key) :
    Except ExtensionError Entries := do
  let file ← orVault "Vault file parse failed: " (C.fromStr content)
  if file.version ≠ 1 then
    .error (.vault ("Unsupported vault version: " ++ toString file.version.toNat))
  else do
    let salt ← orVault "Salt decode failed: " (C.decode file.salt)
    let nonceBytes ← orVault "Nonce decode failed: " (C.decode file.nonce)
    let ciphertext ← orVault "Ciphertext decode failed: " (C.decode file.ciphertext)
    let derivedKey ← C.deriveKey masterKey salt
    if h : nonceBytes.length = 12 then do
      let plaintext ← orVault "Decryption failed: "
        (C.decrypt derivedKey ⟨nonceBytes, h⟩ ciphertext)
      let secrets ← orVault "Vault data parse failed: " (C.fromSlice plaintext)
      return secrets.foldl (fun entries p => Table.upsert Prod.fst p entries) []
    else
      .error (.vault ("Invalid nonce length: expected 12, got " ++ toString nonceBytes.length))

/-! ### The calls -/

/-- A vault, and the world it is in. -/
structure State where
  vault : CredentialVault
  world : World

/-- What a call leaves, and what it returns. -/
abbrev Returns (α : Type) : Type := State × Except ExtensionError α

/-- `save`. -/
def Crates.save (C : Crates) (s : State) (masterKey : Key) (draw : Draw) : Returns Unit :=
  match C.contentOf s.vault.entries masterKey draw with
  | .error e => (s, .error e)
  | .ok content => ({ s with world := { s.world with file := some content } }, .ok ())

/-- The key that `init` takes, and what it leaves in the files; `fresh` is drawn at random. -/
def Crates.initKey (C : Crates) (w : World) (fresh : Key) : World × Except ExtensionError Key :=
  match w.vaultKeyEnv with
  | some existing => (w, C.decodeMasterKey existing)
  | none =>
    match loadKeyringKey w with
    | some existing => (w, C.decodeMasterKey existing)
    | none =>
      let keyB64 := Base64.encode fresh.1
      match storeKeyringKey w keyB64 with
      | some w' => (w', .ok fresh)
      | none => ({ w with keyFile := some keyB64 }, .ok fresh)

/-- `init`. -/
def Crates.init (C : Crates) (s : State) (fresh : Key) (draw : Draw) : Returns Unit :=
  if s.world.file.isSome then
    (s, .error (.vault "Vault already exists. Delete it first to re-initialize."))
  else
    match C.initKey s.world fresh with
    | (w, .error e) => ({ s with world := w }, .error e)
    | (w, .ok key) =>
      let s' : State := ⟨{ s.vault with entries := [], unlocked := true }, w⟩
      match C.save s' key draw with
      | (s', .error e) => (s', .error e)
      | (s', .ok ()) => ({ s' with vault := { s'.vault with cachedKey := some key } }, .ok ())

/-- `unlock`. -/
def Crates.unlock (C : Crates) (s : State) : Returns Unit :=
  if s.vault.unlocked then (s, .ok ())
  else
    match s.world.file with
    | none => (s, .error (.vault "Vault not initialized. Run `rustyhand vault init`."))
    | some content =>
      match C.resolveMasterKey s.vault s.world with
      | .error e => (s, .error e)
      | .ok masterKey =>
        match C.entriesOf content masterKey with
        | .error e => (s, .error e)
        | .ok entries =>
          let v : CredentialVault :=
            { entries := entries, unlocked := true, cachedKey := some masterKey }
          ({ s with vault := v }, .ok ())

/-- `get`. -/
def CredentialVault.get (v : CredentialVault) (key : String) : Option String :=
  (Table.lookup Prod.fst key v.entries).map Prod.snd

/-- `set`. -/
def Crates.set (C : Crates) (s : State) (key value : String) (draw : Draw) : Returns Unit :=
  if ¬ s.vault.unlocked then (s, .error .vaultLocked)
  else
    let entries := Table.upsert Prod.fst (key, value) s.vault.entries
    let s' : State := { s with vault := { s.vault with entries := entries } }
    match C.resolveMasterKey s'.vault s'.world with
    | .error e => (s', .error e)
    | .ok masterKey => C.save s' masterKey draw

/-- `remove`. -/
def Crates.remove (C : Crates) (s : State) (key : String) (draw : Draw) : Returns Bool :=
  if ¬ s.vault.unlocked then (s, .error .vaultLocked)
  else
    let entries := Table.erase Prod.fst key s.vault.entries
    let s' : State := { s with vault := { s.vault with entries := entries } }
    if key ∈ s.vault.entries.map Prod.fst then
      match C.resolveMasterKey s'.vault s'.world with
      | .error e => (s', .error e)
      | .ok masterKey =>
        match C.save s' masterKey draw with
        | (s', .error e) => (s', .error e)
        | (s', .ok ()) => (s', .ok true)
    else (s', .ok false)

/-- A call that changes the secrets. -/
inductive Call
  | set (key value : String)
  | remove (key : String)

/-- What a call leaves, if it returns `Ok`. -/
def Crates.call (C : Crates) (s : State) (draw : Draw) : Call → Option State
  | .set key value =>
    match C.set s key value draw with
    | (s', .ok ()) => some s'
    | (_, .error _) => none
  | .remove key =>
    match C.remove s key draw with
    | (s', .ok _) => some s'
    | (_, .error _) => none

/-- What calls leave one after another, if all return `Ok`. -/
def Crates.calls (C : Crates) : State → List (Call × Draw) → Option State
  | s, [] => some s
  | s, (c, draw) :: cs => (C.call s draw c).bind fun s' => C.calls s' cs

/-- What is stored under a name after some calls. -/
def stored (before : String → Option String) : List Call → String → Option String
  | [] => before
  | .set key value :: cs => stored (Function.update before key (some value)) cs
  | .remove key :: cs => stored (Function.update before key none) cs

end Vault
end RustyHand
