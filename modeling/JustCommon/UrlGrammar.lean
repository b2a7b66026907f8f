import JustCommon.UrlDecode

/-!
# The grammar of `decode`

What `decode` makes of every byte string, given an empty `output`. A text
starts with at most one of the ten tags; behind a tag the codec of the tag
decides, whichever separator it was written with, and a text without one is
its own decoding. Behind a triple DES tag there is a grammar of its own, a
key number and a cipher text with `'|'` between them. The first `'|'`
counts, so the cipher text may contain more of them.
-/

namespace JustCommon

/-! ## Triple DES -/

/-- Every key number from 1 to 10 has its key in the table, of 24 bytes. -/
theorem gsKey_entry : ∀ k ≤ 10, 1 ≤ k →
    ∃ key, gsKey[k]? = some key ∧ key.length = 24 := by
  intro k hk hpos
  have hentry : ∀ k < 11, 1 ≤ k → (gsKey[k]?.map List.length) = some 24 := by decide
  obtain ⟨key, hkey, hlen⟩ := Option.map_eq_some_iff.mp (hentry k (by omega) hpos)
  exact ⟨key, hkey, hlen⟩

theorem des_length {F : Framework} {cipher key result : Bytes} {size : Nat}
    (h : F.des cipher key size = some result) : result.length = size := by
  obtain ⟨r, -, rfl⟩ := Option.map_eq_some_iff.mp h
  exact r.2

/-- For a number in range the cipher gets its key, and decides. -/
theorem decipher_key {F : Framework} {number : Bytes} {e : ErrorCode} {k : UInt32}
    (hparse : F.parse2 number = (e, k)) (he : e.failed = false) (hpos : 1 ≤ k.toNat)
    (hle : k.toNat ≤ 10) {key : Bytes} (hkey : gsKey[k.toNat]? = some key)
    (hlen : key.length = 24) (cipher : Bytes) (size : Nat) (output : Bytes)
    (blobs : BlobStore) :
    (∀ result, F.des cipher key size = some result →
        decipher F number cipher size output blobs = ⟨true, result, e, blobs⟩)
      ∧ (F.des cipher key size = none →
        decipher F number cipher size output blobs
          = ⟨false, output, .invalidArgument, blobs⟩) := by
  have hrange : ¬(gsKey.length ≤ k.toNat ∨ k = 0) := by
    have htable : gsKey.length = 11 := rfl
    have hzero : k = 0 → k.toNat = 0 := fun h => by rw [h]; rfl
    rintro (hbig | hnone)
    · omega
    · have hnat := hzero hnone
      omega
  have htake : (gsKey.getD k.toNat []).take 24 = key := by
    rw [List.getD_eq_getElem?_getD, hkey, Option.getD_some, List.take_of_length_le hlen.le]
  unfold decipher
  simp only [hparse, he, Bool.false_eq_true, if_false, if_neg hrange, htake]
  constructor
  · intro result hdes
    simp only [hdes]
  · intro hdes
    simp only [hdes]

/-- What is accepted is a key number from 1 to 10, `'|'`, and a text the cipher
accepts under that key. -/
theorem decode3Des_accepts (F : Framework) (rest output : Bytes) (ec : ErrorCode)
    (blobs : BlobStore) : (decode3Des F rest output ec blobs).ok = true
      ↔ ∃ number cipher e k key, rest = number ++ bar :: cipher ∧ bar ∉ number
          ∧ F.parse2 number = (e, k) ∧ e.failed = false ∧ 1 ≤ k.toNat ∧ k.toNat ≤ 10
          ∧ gsKey[k.toNat]? = some key ∧ (F.des cipher key cipher.length).isSome = true := by
  rw [decode3Des_ok]
  simp only [Codec.Accepts]
  constructor
  · rintro ⟨number, cipher, rfl, hbar, he, hpos, hle, hdes⟩
    obtain ⟨key, hkey, hlen⟩ := gsKey_entry _ hle hpos
    refine ⟨number, cipher, _, _, key, rfl, hbar, rfl, he, hpos, hle, hkey, ?_⟩
    rwa [List.getD_eq_getElem?_getD, hkey, Option.getD_some,
      List.take_of_length_le hlen.le] at hdes
  · rintro ⟨number, cipher, e, k, key, rfl, hbar, hparse, he, hpos, hle, hkey, hdes⟩
    obtain ⟨key', hkey', hlen⟩ := gsKey_entry _ hle hpos
    obtain rfl := Option.some.inj (hkey.symm.trans hkey')
    refine ⟨number, cipher, rfl, hbar, ?_⟩
    rw [hparse]
    refine ⟨he, hpos, hle, ?_⟩
    rwa [List.getD_eq_getElem?_getD, hkey, Option.getD_some,
      List.take_of_length_le hlen.le]

/-! ## Blobs -/

theorem decodeBlob_found {blobs : BlobStore} {key data : Bytes} {once : Bool}
    (h : blobs.1.view key = some (data, once)) (F : Framework) (output : Bytes)
    (ec : ErrorCode) :
    decodeBlob F key output ec blobs
      = ⟨true, data, .success, (blobs.exec (.get key)).2⟩ := by
  have hget := BlobStore.exec_get blobs key
  rw [h] at hget
  simp [decodeBlob, hget, ErrorCode.failed]

theorem decodeBlob_missing {blobs : BlobStore} {key : Bytes}
    (h : blobs.1.view key = none) (F : Framework) (output : Bytes) (ec : ErrorCode) :
    decodeBlob F key output ec blobs = ⟨false, output, .itemNotExist, blobs⟩ := by
  simp [decodeBlob, BlobStore.exec_get_missing h, ErrorCode.failed]

/-! ## The grammar -/

/-- What `decode` does with a text, by the tag it starts with. -/
structure Grammar (F : Framework) (ec : ErrorCode) (blobs : BlobStore) : Prop where
  /-- A tag is the only one, and its codec decides about the rest. -/
  tagged : ∀ {input codec sep rest}, input = Codec.tag codec sep ++ rest →
    (∀ codec' sep', Codec.tag codec' sep' <+: input → codec' = codec ∧ sep' = sep)
      ∧ decode F input [] ec blobs = codec.decoder F rest [] ec blobs
  untagged : ∀ {input}, (∀ codec sep, ¬Codec.tag codec sep <+: input) →
    decode F input [] ec blobs = ⟨true, input, ec, blobs⟩
  tripleDes_accepts : ∀ rest, (Codec.decoder .tripleDes F rest [] ec blobs).ok = true
    ↔ ∃ number cipher e k key, rest = number ++ bar :: cipher ∧ bar ∉ number
        ∧ F.parse2 number = (e, k) ∧ e.failed = false ∧ 1 ≤ k.toNat ∧ k.toNat ≤ 10
        ∧ gsKey[k.toNat]? = some key ∧ (F.des cipher key cipher.length).isSome = true
  /-- The cipher is called with the 24 bytes of the numbered key, all that is
  behind the first `'|'`, and as much room for its output. -/
  tripleDes_cipher : ∀ {number e k}, bar ∉ number → F.parse2 number = (e, k) →
    e.failed = false → 1 ≤ k.toNat → k.toNat ≤ 10 → ∀ cipher,
      ∃ key, gsKey[k.toNat]? = some key ∧ key.length = 24
        ∧ (∀ result, F.des cipher key cipher.length = some result →
          Codec.decoder .tripleDes F (number ++ bar :: cipher) [] ec blobs
              = ⟨true, result, e, blobs⟩ ∧ result.length = cipher.length)
        ∧ (F.des cipher key cipher.length = none →
          Codec.decoder .tripleDes F (number ++ bar :: cipher) [] ec blobs
            = ⟨false, [], .invalidArgument, blobs⟩)
  blob_found : ∀ {key data once}, blobs.1.view key = some (data, once) →
    Codec.decoder .blob F key [] ec blobs
      = ⟨true, data, .success, (blobs.exec (.get key)).2⟩
  blob_missing : ∀ {key}, blobs.1.view key = none →
    Codec.decoder .blob F key [] ec blobs = ⟨false, [], .itemNotExist, blobs⟩
  file_read : ∀ {name content}, F.readFile (cStr name) = .ok content →
    Codec.decoder .file F name [] ec blobs = ⟨true, content, ec, blobs⟩
  file_failed : ∀ {name e}, F.readFile (cStr name) = .error e →
    Codec.decoder .file F name [] ec blobs = ⟨false, [], e, blobs⟩

/-- **`decode` accepts its grammar**, whatever the framework, the error code at
entry and the blob store. -/
theorem decode_grammar (F : Framework) (ec : ErrorCode) (blobs : BlobStore) :
    Grammar F ec blobs where
  tagged {input codec sep rest} h := by
    refine ⟨fun codec' sep' hprefix => ?_, decode_tagged ⟨sep, h⟩ F [] ec blobs⟩
    exact tag_unique hprefix (h ▸ List.prefix_append (codec.tag sep) rest)
  untagged {input} h := by
    refine decode_untagged ?_ F [] ec blobs
    rintro codec rest ⟨sep, rfl⟩
    exact h codec sep (List.prefix_append _ rest)
  tripleDes_accepts rest := decode3Des_accepts F rest [] ec blobs
  tripleDes_cipher {number e k} hbar hparse he hpos hle cipher := by
    obtain ⟨key, hkey, hlen⟩ := gsKey_entry _ hle hpos
    obtain ⟨hsome, hnone⟩ := decipher_key hparse he hpos hle hkey hlen cipher
      cipher.length [] blobs
    have hdecode := decode3Des_of_bar hbar cipher F [] ec blobs
    refine ⟨key, hkey, hlen, fun result hdes => ⟨?_, des_length hdes⟩, fun hdes => ?_⟩
    · exact hdecode.trans (hsome result hdes)
    · exact hdecode.trans (hnone hdes)
  blob_found h := decodeBlob_found h F [] ec
  blob_missing h := decodeBlob_missing h F [] ec
  file_read h := by simp [Codec.decoder, decodeFile, h]
  file_failed h := by simp [Codec.decoder, decodeFile, h]

end JustCommon
