import Nullalis.JsonUtil

/-!
# The secret store

Secrets are encrypted with a key that is kept in a file, and written in hexadecimal behind a
prefix. What has the prefix is decrypted, and any other text is taken as it is.

The cipher is a parameter, and so is what a call finds: whether its allocations and its accesses to
the key file succeed, the random bytes, and what the memory held that the key is read into.
-/

namespace Nullalis.Security

def KEY_LEN : ℕ := 32

def NONCE_LEN : ℕ := 12

def TAG_LEN : ℕ := 16

/-- The size of the buffers that a secret is decoded and decrypted in. -/
def BUFFER_LEN : ℕ := 8192

/-- A byte string of a length. -/
abbrev Block (length : ℕ) := { bytes : Bytes // bytes.length = length }

/-- An authenticated cipher (`ChaCha20Poly1305`) that opens what it has sealed. -/
structure Aead where
  encrypt : Block KEY_LEN → Block NONCE_LEN → Bytes → Bytes × Block TAG_LEN
  decrypt : Block KEY_LEN → Block NONCE_LEN → Bytes → Block TAG_LEN → Option Bytes
  encrypt_length : ∀ key nonce plaintext,
    (encrypt key nonce plaintext).1.length = plaintext.length
  decrypt_length : ∀ key nonce ciphertext tag plaintext,
    decrypt key nonce ciphertext tag = some plaintext → plaintext.length = ciphertext.length
  decrypt_encrypt : ∀ key nonce plaintext,
    decrypt key nonce (encrypt key nonce plaintext).1 (encrypt key nonce plaintext).2 =
      some plaintext

/-- A cipher may do so. -/
instance : Nonempty Aead :=
  ⟨{ encrypt := fun _ _ plaintext => (plaintext, ⟨List.replicate TAG_LEN 0, rfl⟩)
     decrypt := fun _ _ ciphertext _ => some ciphertext
     encrypt_length := fun _ _ _ => rfl
     decrypt_length := fun _ _ _ _ _ opened => congrArg List.length (Option.some.inj opened).symm
     decrypt_encrypt := fun _ _ _ => rfl }⟩

inductive SecretError where
  | OutOfMemory
  | OddHexLength
  | BufferTooSmall
  | InvalidHex
  | CorruptHex
  | CiphertextTooShort
  | DecryptionFailed
  | KeyReadFailed
  | KeyCorrupt
  | KeyWriteFailed
deriving DecidableEq

/-- What a call finds. -/
structure Surroundings where
  allocates : Bool
  /-- The key file is read, if it could be opened. -/
  reads : Bool
  /-- The key file is created and written, if it could not be opened. -/
  creates : Bool
  /-- What is left of a key file that could not be written. -/
  left : Option Bytes
  /-- What the memory of the key held before. -/
  undefinedKey : Block KEY_LEN
  randomKey : Block KEY_LEN
  randomNonce : Block NONCE_LEN

/-- The store with what its key file holds, if it can be opened. -/
structure SecretStore where
  enabled : Bool
  key_file : Option Bytes
deriving DecidableEq

/-!
## Hexadecimal
-/

def hexEncode (data : Bytes) : Bytes :=
  data.flatMap fun value =>
    [JsonUtil.hexDigit (value.toNat / 16), JsonUtil.hexDigit (value.toNat % 16)]

/-- The bytes of the digits, two for each byte. -/
def hexPairs : Bytes → Except SecretError Bytes
  | high :: low :: rest =>
      match Json.hexValue high, Json.hexValue low with
      | some hi, some lo => (hexPairs rest).map (UInt8.ofNat (16 * hi + lo) :: ·)
      | _, _ => .error .InvalidHex
  | _ => .ok []

/-- Decode into a buffer of a length. -/
def hexDecode (hex : Bytes) (length : ℕ) : Except SecretError Bytes :=
  if hex.length % 2 ≠ 0 then .error .OddHexLength
  else if length < hex.length / 2 then .error .BufferTooSmall
  else hexPairs hex

/-!
## Keys
-/

/-- A buffer whose first bytes are overwritten. -/
def overwrite {length : ℕ} (buffer : Block length) (bytes : Bytes) : Block length :=
  ⟨(bytes ++ buffer.1.drop bytes.length).take length, by
    have whole := buffer.2
    simp only [List.length_take, List.length_append, List.length_drop]
    omega⟩

/-- The key that the text of a key file gives. What it leaves out stays as it was. -/
def keyOf (contents : Bytes) (undefinedKey : Block KEY_LEN) : Except SecretError (Block KEY_LEN) :=
  let hex_str := Bytes.trim (ascii " \t\r\n") (contents.take (KEY_LEN * 2 + 16))
  match hexDecode hex_str KEY_LEN with
  | .error _ => .error .KeyCorrupt
  | .ok decoded => .ok (overwrite undefinedKey decoded)

namespace SecretStore

/-- Load the key, or make one if the key file cannot be opened. -/
def loadOrCreateKey (store : SecretStore) (io : Surroundings) :
    Except SecretError (Block KEY_LEN) × SecretStore :=
  match store.key_file with
  | some contents =>
      if io.reads then (keyOf contents io.undefinedKey, store)
      else (.error .KeyReadFailed, store)
  | none =>
      if io.creates then
        (.ok io.randomKey, { store with key_file := some (hexEncode io.randomKey.1) })
      else (.error .KeyWriteFailed, { store with key_file := io.left })

variable (aead : Aead)

def dupe (io : Surroundings) (bytes : Bytes) : Except SecretError Bytes :=
  if io.allocates then .ok bytes else .error .OutOfMemory

/-- Encrypt a secret, which gives "enc2:" and the nonce, the ciphertext and the tag. -/
def encryptSecret (store : SecretStore) (io : Surroundings) (plaintext : Bytes) :
    Except SecretError Bytes × SecretStore :=
  if store.enabled = false ∨ plaintext = [] then (dupe io plaintext, store)
  else
    match store.loadOrCreateKey io with
    | (.error error, store) => (.error error, store)
    | (.ok key, store) =>
        let nonce := io.randomNonce
        let (ciphertext, tag) := aead.encrypt key nonce plaintext
        let blob := nonce.1 ++ (ciphertext ++ tag.1)
        (dupe io (ascii "enc2:" ++ hexEncode blob), store)

/-- Decrypt a ciphertext with its tag (`decrypt`). -/
def openCiphertext (key : Block KEY_LEN) (nonce : Block NONCE_LEN) (ciphertext : Bytes) :
    Except SecretError Bytes :=
  if long : TAG_LEN ≤ ciphertext.length then
    let data_len := ciphertext.length - TAG_LEN
    let tag : Block TAG_LEN := ⟨ciphertext.drop data_len, by rw [List.length_drop]; omega⟩
    match aead.decrypt key nonce (ciphertext.take data_len) tag with
    | some decrypted => .ok decrypted
    | none => .error .DecryptionFailed
  else .error .CiphertextTooShort

def decryptChacha20 (store : SecretStore) (io : Surroundings) (hex_str : Bytes) :
    Except SecretError Bytes × SecretStore :=
  match hexDecode hex_str BUFFER_LEN with
  | .error _ => (.error .CorruptHex, store)
  | .ok blob =>
      if long : NONCE_LEN < blob.length then
        let nonce : Block NONCE_LEN := ⟨blob.take NONCE_LEN, by rw [List.length_take]; omega⟩
        match store.loadOrCreateKey io with
        | (.error error, store) => (.error error, store)
        | (.ok key, store) =>
            match openCiphertext aead key nonce (blob.drop NONCE_LEN) with
            | .error _ => (.error .DecryptionFailed, store)
            | .ok decrypted => (dupe io decrypted, store)
      else (.error .CiphertextTooShort, store)

/-- Decrypt a secret. What lacks the prefix is no ciphertext. -/
def decryptSecret (store : SecretStore) (io : Surroundings) (value : Bytes) :
    Except SecretError Bytes × SecretStore :=
  if 5 < value.length ∧ Bytes.startsWith value "enc2:" then
    store.decryptChacha20 aead io (value.drop 5)
  else (dupe io value, store)

end SecretStore

/-!
## The codec
-/

theorem length_hexEncode (data : Bytes) : (hexEncode data).length = 2 * data.length := by
  induction data with
  | nil => rfl
  | cons value rest ih =>
      rw [hexEncode, List.flatMap_cons, ← hexEncode, List.length_append, ih, List.length_cons]
      simp only [List.length_cons, List.length_nil]
      omega

theorem hexPairs_hexEncode (data : Bytes) : hexPairs (hexEncode data) = .ok data := by
  induction data with
  | nil => rfl
  | cons value rest ih =>
      have small := value.toNat_lt
      have high : Json.hexValue (JsonUtil.hexDigit (value.toNat / 16)) = some (value.toNat / 16) :=
        JsonUtil.hexValue_hexDigit (by omega)
      have low : Json.hexValue (JsonUtil.hexDigit (value.toNat % 16)) = some (value.toNat % 16) :=
        JsonUtil.hexValue_hexDigit (by omega)
      rw [hexEncode, List.flatMap_cons, ← hexEncode, List.cons_append, List.cons_append,
        List.nil_append, hexPairs, high, low]
      dsimp only
      rw [Nat.div_add_mod, UInt8.ofNat_toNat, ih]
      rfl

theorem hexDecode_hexEncode (data : Bytes) (length : ℕ) :
    hexDecode (hexEncode data) length =
      if length < data.length then .error .BufferTooSmall else .ok data := by
  have even : (hexEncode data).length % 2 = 0 := by
    rw [length_hexEncode]
    omega
  have half : (hexEncode data).length / 2 = data.length := by
    rw [length_hexEncode]
    omega
  rw [hexDecode, if_neg (not_not.mpr even), half, hexPairs_hexEncode]

theorem length_hexPairs {hex bytes : Bytes} (decoded : hexPairs hex = .ok bytes) :
    bytes.length ≤ hex.length / 2 := by
  fun_induction hexPairs hex generalizing bytes with
  | case1 high low rest hi lo _ _ ih =>
      cases later : hexPairs rest with
      | error error =>
          rw [later] at decoded
          cases decoded
      | ok others =>
          rw [later] at decoded
          cases decoded
          have inside := ih later
          simp only [List.length_cons]
          omega
  | case2 => cases decoded
  | case3 =>
      cases decoded
      exact Nat.zero_le _

theorem length_hexDecode {hex bytes : Bytes} {length : ℕ}
    (decoded : hexDecode hex length = .ok bytes) : bytes.length ≤ hex.length / 2 := by
  rw [hexDecode] at decoded
  split at decoded
  case isTrue => cases decoded
  case isFalse =>
      split at decoded
      case isTrue => cases decoded
      case isFalse => exact length_hexPairs decoded

theorem not_blank_hexEncode {data : Bytes} {value : UInt8} (mem : value ∈ hexEncode data) :
    (ascii " \t\r\n").contains value = false := by
  have digits : ∀ number < 16, (ascii " \t\r\n").contains (JsonUtil.hexDigit number) = false := by
    decide
  rcases List.mem_flatMap.mp mem with ⟨source, -, digit⟩
  have small := source.toNat_lt
  rw [List.mem_cons, List.mem_singleton] at digit
  rcases digit with rfl | rfl
  · exact digits _ (by omega)
  · exact digits _ (by omega)

theorem overwrite_whole {length : ℕ} (buffer bytes : Block length) :
    overwrite buffer bytes.1 = bytes := by
  apply Subtype.ext
  have all : buffer.1.drop bytes.1.length = [] := by
    rw [List.drop_eq_nil_iff, buffer.2, bytes.2]
  change (bytes.1 ++ buffer.1.drop bytes.1.length).take length = bytes.1
  rw [all, List.append_nil]
  exact List.take_of_length_le (Nat.le_of_eq bytes.2)

theorem keyOf_hexEncode (key undefinedKey : Block KEY_LEN) :
    keyOf (hexEncode key.1) undefinedKey = .ok key := by
  have short : (hexEncode key.1).take (KEY_LEN * 2 + 16) = hexEncode key.1 := by
    apply List.take_of_length_le
    rw [length_hexEncode, key.2]
    decide
  have fits : ¬KEY_LEN < key.1.length := by
    rw [key.2]
    exact Nat.lt_irrefl _
  rw [keyOf, short, Bytes.trim_eq_self fun _ mem => not_blank_hexEncode mem, hexDecode_hexEncode,
    if_neg fits]
  dsimp only
  rw [overwrite_whole]

theorem exists_keyOf {contents : Bytes} {undefinedKey key : Block KEY_LEN}
    (read : keyOf contents undefinedKey = .ok key) (other : Block KEY_LEN) :
    ∃ second, keyOf contents other = .ok second := by
  rw [keyOf] at read
  split at read
  case h_1 => cases read
  case h_2 decoded found =>
      rw [keyOf, found]
      exact ⟨_, rfl⟩

namespace SecretStore

/-!
## The round trip
-/

variable {aead : Aead} {store next : SecretStore} {io later : Surroundings}
  {first second : Block KEY_LEN}

/-- Whatever is encrypted is decrypted again afterwards, if nothing fails then. -/
def RoundTrips (store : SecretStore) (aead : Aead) (plaintext : Bytes) : Prop :=
  ∀ io later encrypted, (store.encryptSecret aead io plaintext).1 = .ok encrypted →
    later.allocates = true → later.reads = true →
      ((store.encryptSecret aead io plaintext).2.decryptSecret aead later encrypted).1 =
        .ok plaintext

/-- A call and one after it may work with these keys. -/
def Keyed (store : SecretStore) (first second : Block KEY_LEN) : Prop :=
  match store.key_file with
  | none => second = first
  | some contents => ∃ undefinedKey other,
      keyOf contents undefinedKey = .ok first ∧ keyOf contents other = .ok second

/-- A text that is encrypted fits the buffers, and the key file leaves no doubt about its key. One
that is not encrypted does not look like a ciphertext. -/
def Recoverable (store : SecretStore) (aead : Aead) (plaintext : Bytes) : Prop :=
  if store.enabled = false ∨ plaintext = [] then
    ¬(5 < plaintext.length ∧ Bytes.startsWith plaintext "enc2:")
  else
    ∀ first second, store.Keyed first second →
      NONCE_LEN + plaintext.length + TAG_LEN ≤ BUFFER_LEN ∧
        ∀ nonce, aead.decrypt second nonce (aead.encrypt first nonce plaintext).1
          (aead.encrypt first nonce plaintext).2 = some plaintext

theorem exists_keyed (loaded : store.loadOrCreateKey io = (.ok first, next))
    (reads : later.reads = true) :
    ∃ second, next.loadOrCreateKey later = (.ok second, next) ∧ store.Keyed first second := by
  rw [loadOrCreateKey] at loaded
  split at loaded
  case h_1 contents file =>
      split at loaded
      case isFalse => cases loaded
      case isTrue =>
          rcases Prod.mk.inj loaded with ⟨read, rfl⟩
          rcases exists_keyOf read later.undefinedKey with ⟨second, read'⟩
          refine ⟨second, ?_, ?_⟩
          · simp only [loadOrCreateKey, file, reads, if_true, read']
          · rw [Keyed, file]
            exact ⟨_, _, read, read'⟩
  case h_2 file =>
      split at loaded
      case isFalse => cases loaded
      case isTrue =>
          cases loaded
          refine ⟨io.randomKey, ?_, ?_⟩
          · simp only [loadOrCreateKey, reads, if_true, keyOf_hexEncode]
          · rw [Keyed, file]

theorem exists_surroundings (keyed : store.Keyed first second) (nonce : Block NONCE_LEN) :
    ∃ io later next, io.allocates = true ∧ io.randomNonce = nonce ∧ later.allocates = true ∧
      later.reads = true ∧ store.loadOrCreateKey io = (.ok first, next) ∧
        next.loadOrCreateKey later = (.ok second, next) := by
  rw [Keyed] at keyed
  split at keyed
  case h_1 file =>
      subst keyed
      let io : Surroundings := ⟨true, true, true, none, second, second, nonce⟩
      refine ⟨io, io, { store with key_file := some (hexEncode second.1) }, rfl, rfl, rfl, rfl, ?_, ?_⟩
      · simp only [loadOrCreateKey, file]
        rfl
      · simp only [loadOrCreateKey, keyOf_hexEncode]
        rfl
  case h_2 contents file =>
      rcases keyed with ⟨undefinedKey, other, read, read'⟩
      refine ⟨⟨true, true, true, none, undefinedKey, first, nonce⟩,
        ⟨true, true, true, none, other, first, nonce⟩, store, rfl, rfl, rfl, rfl, ?_, ?_⟩
      · simp only [loadOrCreateKey, file, if_true, read]
      · simp only [loadOrCreateKey, file, if_true, read']

theorem openCiphertext_append (key : Block KEY_LEN) (nonce : Block NONCE_LEN) (ciphertext : Bytes)
    (tag : Block TAG_LEN) :
    openCiphertext aead key nonce (ciphertext ++ tag.1) =
      match aead.decrypt key nonce ciphertext tag with
      | some decrypted => .ok decrypted
      | none => .error .DecryptionFailed := by
  have size : (ciphertext ++ tag.1).length = ciphertext.length + TAG_LEN := by
    rw [List.length_append, tag.2]
  have long : TAG_LEN ≤ (ciphertext ++ tag.1).length := by omega
  have data : (ciphertext ++ tag.1).length - TAG_LEN = ciphertext.length := by omega
  rw [openCiphertext, dif_pos long]
  simp only [data, List.take_left, List.drop_left]

theorem decryptSecret_blob (loaded : store.loadOrCreateKey io = (.ok second, next))
    (allocates : io.allocates = true) (nonce : Block NONCE_LEN) (ciphertext : Bytes)
    (tag : Block TAG_LEN) :
    (store.decryptSecret aead io
        (ascii "enc2:" ++ hexEncode (nonce.1 ++ (ciphertext ++ tag.1)))).1 =
      if BUFFER_LEN < NONCE_LEN + ciphertext.length + TAG_LEN then .error .CorruptHex
      else
        match aead.decrypt second nonce ciphertext tag with
        | some decrypted => .ok decrypted
        | none => .error .DecryptionFailed := by
  have size : (nonce.1 ++ (ciphertext ++ tag.1)).length =
      NONCE_LEN + ciphertext.length + TAG_LEN := by
    rw [List.length_append, List.length_append, nonce.2, tag.2]
    omega
  have front : (ascii "enc2:").length = 5 := rfl
  have marked : 5 < (ascii "enc2:" ++ hexEncode (nonce.1 ++ (ciphertext ++ tag.1))).length ∧
      Bytes.startsWith (ascii "enc2:" ++ hexEncode (nonce.1 ++ (ciphertext ++ tag.1))) "enc2:" := by
    constructor
    · rw [List.length_append, length_hexEncode, size, front]
      have positive : 0 < NONCE_LEN := by decide
      omega
    · exact List.isPrefixOf_iff_prefix.mpr (List.prefix_append _ _)
  rw [decryptSecret, if_pos marked, List.drop_left' front, decryptChacha20, hexDecode_hexEncode, size]
  by_cases large : BUFFER_LEN < NONCE_LEN + ciphertext.length + TAG_LEN
  case pos => rw [if_pos large, if_pos large]
  case neg =>
      have long : NONCE_LEN < (nonce.1 ++ (ciphertext ++ tag.1)).length := by
        rw [size]
        have positive : 0 < TAG_LEN := by decide
        omega
      rw [if_neg large, if_neg large]
      dsimp only
      rw [dif_pos long]
      simp only [loaded, List.take_left' nonce.2, List.drop_left' nonce.2, openCiphertext_append]
      cases aead.decrypt second nonce ciphertext tag with
      | none => rfl
      | some decrypted => simp only [dupe, allocates, if_true]

theorem length_openCiphertext {key : Block KEY_LEN} {nonce : Block NONCE_LEN}
    {ciphertext plaintext : Bytes}
    (opened : openCiphertext aead key nonce ciphertext = .ok plaintext) :
    plaintext.length ≤ ciphertext.length := by
  rw [openCiphertext] at opened
  split at opened
  case isFalse => cases opened
  case isTrue =>
      dsimp only at opened
      split at opened
      case h_2 => cases opened
      case h_1 decrypted found =>
          cases opened
          rw [aead.decrypt_length _ _ _ _ _ found, List.length_take]
          exact Nat.min_le_right _ _

theorem decryptSecret_ne_self {value : Bytes}
    (marked : 5 < value.length ∧ Bytes.startsWith value "enc2:") :
    (store.decryptSecret aead io value).1 ≠ .ok value := by
  intro same
  rw [decryptSecret, if_pos marked, decryptChacha20] at same
  split at same
  case h_1 => cases same
  case h_2 blob decoded =>
      have short := length_hexDecode decoded
      rw [List.length_drop] at short
      split at same
      case isFalse => cases same
      case isTrue =>
          split at same
          case h_1 => cases same
          case h_2 key next loaded =>
              dsimp only at same
              split at same
              case h_1 => cases same
              case h_2 decrypted opened =>
                  have shorter := length_openCiphertext opened
                  rw [List.length_drop] at shorter
                  rw [dupe] at same
                  split at same
                  case isFalse => cases same
                  case isTrue =>
                      cases same
                      omega

theorem roundTrips_plain_iff {plaintext : Bytes}
    (plain : store.enabled = false ∨ plaintext = []) :
    store.RoundTrips aead plaintext ↔
      ¬(5 < plaintext.length ∧ Bytes.startsWith plaintext "enc2:") := by
  have whole (io : Surroundings) : store.encryptSecret aead io plaintext =
      (dupe io plaintext, store) := by
    rw [encryptSecret, if_pos plain]
  constructor
  · intro roundTrips marked
    let io : Surroundings := ⟨true, true, true, none, ⟨List.replicate KEY_LEN 0, rfl⟩,
      ⟨List.replicate KEY_LEN 0, rfl⟩, ⟨List.replicate NONCE_LEN 0, rfl⟩⟩
    have back := roundTrips io io plaintext (by rw [whole]; rfl) rfl rfl
    rw [whole] at back
    exact decryptSecret_ne_self marked back
  · intro unmarked io later encrypted succeeded allocates _
    rw [whole] at succeeded ⊢
    dsimp only at succeeded ⊢
    rw [dupe] at succeeded
    split at succeeded
    case isFalse => cases succeeded
    case isTrue =>
        cases succeeded
        rw [decryptSecret, if_neg unmarked, dupe, if_pos allocates]

/-- **A secret that is encrypted is decrypted again exactly if it can be recovered.** -/
theorem roundTrips_secret_iff (aead : Aead) (store : SecretStore) (plaintext : Bytes) :
    store.RoundTrips aead plaintext ↔ store.Recoverable aead plaintext := by
  rw [Recoverable]
  split
  case isTrue plain => exact roundTrips_plain_iff plain
  case isFalse secret =>
      have sealed {io : Surroundings} {first : Block KEY_LEN} {next : SecretStore}
          (loaded : store.loadOrCreateKey io = (.ok first, next)) :
          store.encryptSecret aead io plaintext =
            (dupe io (ascii "enc2:" ++ hexEncode (io.randomNonce.1 ++
              ((aead.encrypt first io.randomNonce plaintext).1 ++
                (aead.encrypt first io.randomNonce plaintext).2.1))), next) := by
        rw [encryptSecret, if_neg secret, loaded]
      have size (key : Block KEY_LEN) (nonce : Block NONCE_LEN) :
          NONCE_LEN + (aead.encrypt key nonce plaintext).1.length + TAG_LEN =
            NONCE_LEN + plaintext.length + TAG_LEN := by
        rw [aead.encrypt_length]
      constructor
      · intro roundTrips first second keyed
        have back (nonce : Block NONCE_LEN) : NONCE_LEN + plaintext.length + TAG_LEN ≤ BUFFER_LEN ∧
            aead.decrypt second nonce (aead.encrypt first nonce plaintext).1
              (aead.encrypt first nonce plaintext).2 = some plaintext := by
          rcases exists_surroundings keyed nonce with
            ⟨io, later, next, allocates, rfl, allocates', reads, loaded, loaded'⟩
          have decrypted := roundTrips io later _ (by rw [sealed loaded, dupe, if_pos allocates])
            allocates' reads
          rw [sealed loaded, decryptSecret_blob loaded' allocates', size] at decrypted
          split at decrypted
          case isTrue => cases decrypted
          case isFalse fits =>
              refine ⟨Nat.le_of_not_lt fits, ?_⟩
              split at decrypted
              case h_1 other opened =>
                  cases decrypted
                  exact opened
              case h_2 => cases decrypted
        exact ⟨(back ⟨List.replicate NONCE_LEN 0, rfl⟩).1, fun nonce => (back nonce).2⟩
      · intro recoverable io later encrypted succeeded allocates reads
        cases found : store.loadOrCreateKey io with
        | mk outcome next =>
            cases outcome with
            | error error =>
                rw [encryptSecret, if_neg secret, found] at succeeded
                cases succeeded
            | ok first =>
                rcases exists_keyed found reads with ⟨second, loaded, keyed⟩
                rcases recoverable first second keyed with ⟨fits, opens⟩
                rw [sealed found, dupe] at succeeded
                split at succeeded
                case isFalse => cases succeeded
                case isTrue =>
                    cases succeeded
                    rw [sealed found, decryptSecret_blob loaded allocates, size,
                      if_neg (Nat.not_lt.mpr fits), opens]

/-- Not every secret comes back: one that is not encrypted may look like a ciphertext. -/
theorem not_roundTrips_secret :
    ¬∀ (aead : Aead) (store : SecretStore) (plaintext : Bytes),
      store.RoundTrips aead plaintext := by
  intro roundTrips
  rcases (inferInstance : Nonempty Aead) with ⟨aead⟩
  have back := roundTrips aead ⟨false, none⟩ (ascii "enc2:password")
  rw [roundTrips_plain_iff (.inl rfl)] at back
  exact absurd (by decide) back

end SecretStore

end Nullalis.Security
