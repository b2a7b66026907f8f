import JustCommon.UrlHelper

/-!
# What decodes, and what is reported

`Decodes` says which texts `decode` accepts, by their tag and what the codec
of the tag makes of the rest. Every decoder reports its failures honestly:
with a clear error code at entry, the code is set afterwards exactly if
`false` was returned. `decode_param` passes this on. `decode_url` returns
`true` for a path that does not decode, so it reports failures like
`decode_param` only for paths that do.
-/

namespace JustCommon

/-! ## Tags -/

inductive Codec where
  | base16
  | base64
  | tripleDes
  | blob
  | file
deriving DecidableEq, Repr

inductive Separator where
  | bar
  | slash
deriving DecidableEq, Repr

def Separator.byte : Separator → UInt8
  | .bar => JustCommon.bar
  | .slash => 47

namespace Codec

def name : Codec → Bytes
  | .base16 => ascii "base16"
  | .base64 => ascii "base64"
  | .tripleDes => ascii "3des"
  | .blob => ascii "blob"
  | .file => ascii "file"

def tag (codec : Codec) (sep : Separator) : Bytes := codec.name ++ [sep.byte]

def decoder : Codec → Decoder
  | .base16 => decodeBase16
  | .base64 => decodeBase64
  | .tripleDes => decode3Des
  | .blob => decodeBlob
  | .file => decodeFile

/-- What the codec accepts after its tag. -/
def Accepts (F : Framework) (blobs : BlobStore) : Codec → Bytes → Prop
  | .base16, rest => F.base16Decode rest ≠ ascii "E1" ∧ F.base16Decode rest ≠ ascii "E2"
  | .base64, rest => F.base64Decode rest ≠ []
  | .tripleDes, rest => ∃ number cipher, rest = number ++ bar :: cipher ∧ bar ∉ number
      ∧ (F.parse2 number).1.failed = false
      ∧ 1 ≤ (F.parse2 number).2.toNat ∧ (F.parse2 number).2.toNat ≤ 10
      ∧ (F.des cipher ((gsKey.getD (F.parse2 number).2.toNat []).take 24)
          cipher.length).isSome = true
  | .blob, rest => (blobs.1.view rest).isSome = true
  | .file, rest => ∃ content, F.readFile (cStr rest) = .ok content

end Codec

/-- `text` is a tag of `codec` and `rest`. -/
def Tagged (codec : Codec) (rest text : Bytes) : Prop :=
  ∃ sep : Separator, text = codec.tag sep ++ rest

/-- The texts `decode` accepts: what follows a tag is what its codec accepts. -/
def Decodes (F : Framework) (blobs : BlobStore) (text : Bytes) : Prop :=
  ∀ codec rest, Tagged codec rest text → codec.Accepts F blobs rest

/-- No tag is the beginning of another one. -/
theorem tag_prefix_tag {c c' : Codec} {sep sep' : Separator}
    (h : c.tag sep <+: c'.tag sep') : c = c' ∧ sep = sep' := by
  cases c <;> cases c' <;> cases sep <;> cases sep' <;>
    first
    | exact ⟨rfl, rfl⟩
    | exact absurd h (by decide)

theorem tag_unique {c c' : Codec} {sep sep' : Separator} {text : Bytes}
    (h : c.tag sep <+: text) (h' : c'.tag sep' <+: text) : c = c' ∧ sep = sep' := by
  rcases List.prefix_or_prefix_of_prefix h h' with hle | hle
  · exact tag_prefix_tag hle
  · obtain ⟨hc, hsep⟩ := tag_prefix_tag hle
    exact ⟨hc.symm, hsep.symm⟩

theorem Tagged.unique {c c' : Codec} {rest rest' text : Bytes}
    (h : Tagged c rest text) (h' : Tagged c' rest' text) : c = c' ∧ rest = rest' := by
  obtain ⟨sep, rfl⟩ := h
  obtain ⟨sep', heq⟩ := h'
  obtain ⟨rfl, rfl⟩ := tag_unique (List.prefix_append (c.tag sep) rest)
    (heq ▸ List.prefix_append (c'.tag sep') rest')
  exact ⟨rfl, List.append_cancel_left heq⟩

/-- The table holds every codec, first under its tags with `'|'`, then under
those with `'/'`. -/
theorem decoders_eq : decoders =
    [Separator.bar, .slash].flatMap fun sep =>
      [Codec.base16, .base64, .tripleDes, .blob, .file].map fun codec =>
        (codec.tag sep, codec.decoder) := rfl

theorem mem_decoders {entry : Bytes × Decoder} :
    entry ∈ decoders ↔ ∃ (codec : Codec) (sep : Separator),
      entry = (codec.tag sep, codec.decoder) := by
  rw [decoders_eq]
  constructor
  · intro h
    obtain ⟨sep, -, hsep⟩ := List.mem_flatMap.mp h
    obtain ⟨codec, -, rfl⟩ := List.mem_map.mp hsep
    exact ⟨codec, sep, rfl⟩
  · rintro ⟨codec, sep, rfl⟩
    refine List.mem_flatMap.mpr ⟨sep, ?_, List.mem_map.mpr ⟨codec, ?_, rfl⟩⟩
    · cases sep <;> simp
    · cases codec <;> simp

/-- `decode` on a tagged text is the codec of the tag on the rest. -/
theorem decode_tagged {codec : Codec} {rest text : Bytes} (h : Tagged codec rest text)
    (F : Framework) (output : Bytes) (ec : ErrorCode) (blobs : BlobStore) :
    decode F text output ec blobs = codec.decoder F rest output ec blobs := by
  obtain ⟨sep, rfl⟩ := h
  unfold decode
  cases hfind : decoders.find? fun entry => entry.1.isPrefixOf (codec.tag sep ++ rest) with
  | some entry =>
      obtain ⟨codec', sep', rfl⟩ := mem_decoders.mp (List.mem_of_find?_eq_some hfind)
      have hprefix : codec'.tag sep' <+: codec.tag sep ++ rest := by
        simpa using List.find?_some hfind
      obtain ⟨rfl, rfl⟩ := tag_unique hprefix (List.prefix_append (codec.tag sep) rest)
      simp only [List.drop_left]
  | none =>
      have hnone := List.find?_eq_none.mp hfind _ (mem_decoders.mpr ⟨codec, sep, rfl⟩)
      simp at hnone

/-- `decode` on any other text leaves it as it is. -/
theorem decode_untagged {text : Bytes} (h : ∀ codec rest, ¬Tagged codec rest text)
    (F : Framework) (output : Bytes) (ec : ErrorCode) (blobs : BlobStore) :
    decode F text output ec blobs = ⟨true, text, ec, blobs⟩ := by
  unfold decode
  cases hfind : decoders.find? fun entry => entry.1.isPrefixOf text with
  | some entry =>
      obtain ⟨codec, sep, rfl⟩ := mem_decoders.mp (List.mem_of_find?_eq_some hfind)
      obtain ⟨rest, hrest⟩ : codec.tag sep <+: text := by simpa using List.find?_some hfind
      exact absurd ⟨sep, hrest.symm⟩ (h codec rest)
  | none => rfl

theorem tagged_or_not (text : Bytes) :
    (∃ codec rest, Tagged codec rest text) ∨ ∀ codec rest, ¬Tagged codec rest text := by
  by_cases h : ∃ codec rest, Tagged codec rest text
  · exact Or.inl h
  · exact Or.inr fun codec rest ht => h ⟨codec, rest, ht⟩

/-! ## Honest reports -/

/-- With a clear error code at entry, the code is set exactly if the decoder
returns `false`. -/
def Decoder.Honest (F : Framework) (decoder : Decoder) : Prop :=
  ∀ input output ec blobs, ec.failed = false →
    (decoder F input output ec blobs).ok = !(decoder F input output ec blobs).ec.failed

/-- An open that fails leaves an error: `last_system_error()` is not 0. -/
def OpenFails (F : Framework) : Prop :=
  ∀ name e, F.readFile name = .error e → e.failed = true

/-- What a decoder leaves: it accepts its input, and a clear error code stays
clear; or it does not, and then it touches neither `output` nor the blobs and
sets the error code. -/
def Decoder.Leaves (F : Framework) (decoder : Decoder) (accepts : Prop) (input output : Bytes)
    (ec : ErrorCode) (blobs : BlobStore) : Prop :=
  (accepts ∧ (decoder F input output ec blobs).ok = true
      ∧ (ec.failed = false → (decoder F input output ec blobs).ec.failed = false))
    ∨ (¬accepts ∧ ∃ e, decoder F input output ec blobs = ⟨false, output, e, blobs⟩
      ∧ (OpenFails F → e.failed = true))

/-! ## What each decoder leaves -/

theorem decode3Des_of_no_bar {input : Bytes} (h : bar ∉ input) (F : Framework)
    (output : Bytes) (ec : ErrorCode) (blobs : BlobStore) :
    decode3Des F input output ec blobs = ⟨false, output, .invalidArgument, blobs⟩ := by
  have hidx : input.length ≤ input.idxOf bar := (List.idxOf_eq_length_iff.mpr h).ge
  simp only [decode3Des, if_pos hidx]

/-- The number is what is before the first `'|'`, the cipher text what is
after it. -/
theorem decode3Des_of_bar {number : Bytes} (h : bar ∉ number) (cipher : Bytes)
    (F : Framework) (output : Bytes) (ec : ErrorCode) (blobs : BlobStore) :
    decode3Des F (number ++ bar :: cipher) output ec blobs
      = decipher F number cipher cipher.length output blobs := by
  have hidx : (number ++ bar :: cipher).idxOf bar = number.length := by
    rw [List.idxOf_append_of_notMem h, List.idxOf_cons_self, Nat.add_zero]
  have hlen : ¬(number ++ bar :: cipher).length ≤ number.length := by simp
  have htake : (number ++ bar :: cipher).take number.length = number := List.take_left
  have hdrop : (number ++ bar :: cipher).drop (number.length + 1) = cipher := by
    rw [← List.drop_drop, List.drop_left]
    rfl
  have hsize : (number ++ bar :: cipher).length - (number.length + 1) = cipher.length := by
    rw [List.length_append, List.length_cons]
    omega
  simp only [decode3Des, hidx, if_neg hlen, htake, hdrop, hsize]

theorem split_unique {x : UInt8} {a b a' b' : Bytes} (h : a ++ x :: b = a' ++ x :: b')
    (ha : x ∉ a) (ha' : x ∉ a') : a = a' ∧ b = b' := by
  have hlen : a.length = a'.length := by
    have hidx := congrArg (List.idxOf x) h
    rwa [List.idxOf_append_of_notMem ha, List.idxOf_append_of_notMem ha',
      List.idxOf_cons_self, List.idxOf_cons_self, Nat.add_zero, Nat.add_zero] at hidx
  obtain ⟨rfl, hb⟩ := List.append_inj h hlen
  exact ⟨rfl, (List.cons.inj hb).2⟩

theorem decipher_cases (F : Framework) (number cipher : Bytes) (size : Nat)
    (output : Bytes) (blobs : BlobStore) :
    ((F.parse2 number).1.failed = false
        ∧ 1 ≤ (F.parse2 number).2.toNat ∧ (F.parse2 number).2.toNat ≤ 10
        ∧ ∃ result, F.des cipher ((gsKey.getD (F.parse2 number).2.toNat []).take 24) size
            = some result
          ∧ decipher F number cipher size output blobs
            = ⟨true, result, (F.parse2 number).1, blobs⟩)
      ∨ (¬((F.parse2 number).1.failed = false
          ∧ 1 ≤ (F.parse2 number).2.toNat ∧ (F.parse2 number).2.toNat ≤ 10
          ∧ (F.des cipher ((gsKey.getD (F.parse2 number).2.toNat []).take 24)
              size).isSome = true)
        ∧ ∃ e, decipher F number cipher size output blobs = ⟨false, output, e, blobs⟩
          ∧ e.failed = true) := by
  have hlen : gsKey.length = 11 := rfl
  have hzero : (F.parse2 number).2 = 0 ↔ (F.parse2 number).2.toNat = 0 := by
    rw [← UInt32.toNat_inj]
    rfl
  unfold decipher
  dsimp only
  rw [hlen]
  cases hparse : (F.parse2 number).1.failed with
  | true => exact Or.inr ⟨by simp, _, if_pos rfl, hparse⟩
  | false =>
      by_cases hkey : 11 ≤ (F.parse2 number).2.toNat ∨ (F.parse2 number).2 = 0
      · have hno : ¬(1 ≤ (F.parse2 number).2.toNat ∧ (F.parse2 number).2.toNat ≤ 10) := by
          rw [hzero] at hkey
          omega
        rw [if_neg Bool.false_ne_true, if_pos hkey]
        exact Or.inr ⟨fun h => hno ⟨h.2.1, h.2.2.1⟩, _, rfl, rfl⟩
      · have hyes : 1 ≤ (F.parse2 number).2.toNat ∧ (F.parse2 number).2.toNat ≤ 10 := by
          rw [hzero] at hkey
          omega
        rw [if_neg Bool.false_ne_true, if_neg hkey]
        cases F.des cipher ((gsKey.getD (F.parse2 number).2.toNat []).take 24) size with
        | some result => exact Or.inl ⟨rfl, hyes.1, hyes.2, result, rfl, rfl⟩
        | none => exact Or.inr ⟨by simp, _, rfl, rfl⟩

theorem decode3Des_leaves (F : Framework) (input output : Bytes) (ec : ErrorCode)
    (blobs : BlobStore) :
    Decoder.Leaves F decode3Des (Codec.Accepts F blobs .tripleDes input) input output ec
      blobs := by
  by_cases hbar : bar ∈ input
  · obtain ⟨number, cipher, rfl, hnumber⟩ := List.eq_append_cons_of_mem hbar
    unfold Decoder.Leaves
    rw [decode3Des_of_bar hnumber]
    rcases decipher_cases F number cipher cipher.length output blobs with
      ⟨he, hpos, hle, result, hdes, heq⟩ | ⟨hnot, e, heq, he⟩
    · rw [heq]
      refine Or.inl ⟨⟨number, cipher, rfl, hnumber, he, hpos, hle, ?_⟩, rfl, fun _ => he⟩
      rw [hdes]
      rfl
    · refine Or.inr ⟨?_, e, heq, fun _ => he⟩
      rintro ⟨number', cipher', hsplit, hnumber', hrest⟩
      -- the first `'|'` is the only one with none before it
      obtain ⟨rfl, rfl⟩ := split_unique hsplit hnumber hnumber'
      exact hnot hrest
  · refine Or.inr ⟨?_, _, decode3Des_of_no_bar hbar F output ec blobs, fun _ => rfl⟩
    rintro ⟨number, cipher, rfl, -⟩
    exact hbar (List.mem_append_right _ List.mem_cons_self)

theorem Codec.decoder_leaves (codec : Codec) (F : Framework) (rest output : Bytes)
    (ec : ErrorCode) (blobs : BlobStore) :
    Decoder.Leaves F codec.decoder (codec.Accepts F blobs rest) rest output ec blobs := by
  cases codec with
  | base16 =>
      simp only [Decoder.Leaves, Codec.decoder, decodeBase16, Codec.Accepts]
      by_cases herr : F.base16Decode rest = ascii "E1" ∨ F.base16Decode rest = ascii "E2"
      · rw [if_pos herr]
        exact Or.inr ⟨fun h => herr.elim h.1 h.2, _, rfl, fun _ => rfl⟩
      · rw [if_neg herr]
        exact Or.inl ⟨not_or.mp herr, rfl, id⟩
  | base64 =>
      simp only [Decoder.Leaves, Codec.decoder, decodeBase64, Codec.Accepts]
      by_cases herr : F.base64Decode rest = []
      · rw [if_pos herr]
        exact Or.inr ⟨fun h => h herr, _, rfl, fun _ => rfl⟩
      · rw [if_neg herr]
        exact Or.inl ⟨herr, rfl, id⟩
  | tripleDes => exact decode3Des_leaves F rest output ec blobs
  | blob =>
      simp only [Decoder.Leaves, Codec.decoder, decodeBlob, Codec.Accepts]
      cases hview : blobs.1.view rest with
      | some entry =>
          have hget := BlobStore.exec_get blobs rest
          rw [hview] at hget
          left
          simp [hget, ErrorCode.failed]
      | none =>
          right
          simp [BlobStore.exec_get_missing hview, ErrorCode.failed]
  | file =>
      simp only [Decoder.Leaves, Codec.decoder, decodeFile, Codec.Accepts]
      cases hread : F.readFile (cStr rest) with
      | ok content => exact Or.inl ⟨⟨content, rfl⟩, rfl, id⟩
      | error e => exact Or.inr ⟨by simp, e, rfl, fun hopen => hopen _ e hread⟩

theorem decode_leaves (F : Framework) (text output : Bytes) (ec : ErrorCode)
    (blobs : BlobStore) :
    Decoder.Leaves F decode (Decodes F blobs text) text output ec blobs := by
  rcases tagged_or_not text with ⟨codec, rest, ht⟩ | hnone
  · have hiff : Decodes F blobs text ↔ codec.Accepts F blobs rest := by
      constructor
      · intro h
        exact h codec rest ht
      · intro h codec' rest' ht'
        obtain ⟨rfl, rfl⟩ := ht.unique ht'
        exact h
    unfold Decoder.Leaves
    rw [decode_tagged ht, hiff]
    exact codec.decoder_leaves F rest output ec blobs
  · unfold Decoder.Leaves
    rw [decode_untagged hnone]
    exact Or.inl ⟨fun codec rest ht => absurd ht (hnone codec rest), rfl, id⟩

theorem decode3Des_ok (F : Framework) (input output : Bytes) (ec : ErrorCode)
    (blobs : BlobStore) : (decode3Des F input output ec blobs).ok = true
      ↔ Codec.Accepts F blobs .tripleDes input := by
  rcases decode3Des_leaves F input output ec blobs with ⟨haccepts, hok, -⟩ | ⟨hnot, e, heq, -⟩
  · exact iff_of_true hok haccepts
  · rw [heq]
    exact iff_of_false Bool.false_ne_true hnot

theorem decode_ok (F : Framework) (text output : Bytes) (ec : ErrorCode)
    (blobs : BlobStore) :
    (decode F text output ec blobs).ok = true ↔ Decodes F blobs text := by
  rcases decode_leaves F text output ec blobs with ⟨hdecodes, hok, -⟩ | ⟨hnot, e, heq, -⟩
  · exact iff_of_true hok hdecodes
  · rw [heq]
    exact iff_of_false Bool.false_ne_true hnot

theorem decode_honest {F : Framework} (hopen : OpenFails F) : Decoder.Honest F decode := by
  intro text output ec blobs hec
  rcases decode_leaves F text output ec blobs with ⟨-, hok, hclear⟩ | ⟨-, e, heq, he⟩
  · rw [hok, hclear hec]
    rfl
  · rw [heq]
    simp [he hopen]

/-! ## The two entry points -/

variable {Url : Type} {F : Framework} {C : UrlClass Url}

theorem decodeUrl_invalid {url : Url} (h : C.isValid url = false) (ec : ErrorCode)
    (blobs : BlobStore) :
    decodeUrl F C url ec blobs = some ⟨false, .invalidUrl, url, blobs⟩ := by
  simp [decodeUrl, h]

/-- A valid URL gets `true`, and the error code of decoding its path. -/
theorem decodeUrl_valid {url : Url} (h : C.isValid url = true) (hpath : C.path url ≠ [])
    (ec : ErrorCode) (blobs : BlobStore) :
    ∃ u, decodeUrl F C url ec blobs = some u ∧ u.ok = true
      ∧ u.ec = (decode F ((C.path url).drop 1) [] ec blobs).ec := by
  unfold decodeUrl
  rw [h]
  cases hp : C.path url with
  | nil => exact absurd hp hpath
  | cons c text => exact ⟨_, rfl, rfl, rfl⟩

theorem decodeParam_ok (url : Url) (key : Bytes) (ec : ErrorCode) (blobs : BlobStore) :
    (decodeParam F C url key ec blobs).ok = (decode F (C.param url key) [] ec blobs).ok
      ∧ (decodeParam F C url key ec blobs).ec
        = (decode F (C.param url key) [] ec blobs).ec := by
  unfold decodeParam
  cases hok : (decode F (C.param url key) [] ec blobs).ok <;> simp [hok]

/-- Both entry points return `false` for what does not decode, and only then,
with the error code set. -/
structure ReportsAlike (F : Framework) (C : UrlClass Url) (url : Url) (key : Bytes)
    (ec : ErrorCode) (blobs : BlobStore) : Prop where
  of_url : ∃ u, decodeUrl F C url ec blobs = some u
    ∧ (u.ok = false ↔ C.isValid url = false
        ∨ (decode F ((C.path url).drop 1) [] ec blobs).ok = false)
    ∧ (u.ec.failed = true ↔ u.ok = false)
  of_param : (decodeParam F C url key ec blobs).ok = false
    ↔ (decode F (C.param url key) [] ec blobs).ok = false
  of_param_ec : (decodeParam F C url key ec blobs).ec.failed = true
    ↔ (decodeParam F C url key ec blobs).ok = false
  same_text : C.isValid url = true → (C.path url).drop 1 = C.param url key →
    ∀ u, decodeUrl F C url ec blobs = some u →
      u.ok = (decodeParam F C url key ec blobs).ok

/-- **Failures are reported alike unless the path does not decode.** -/
theorem reports_alike_iff (hopen : OpenFails F) {url : Url} (hpath : C.path url ≠ [])
    {ec : ErrorCode} (hec : ec.failed = false) (key : Bytes) (blobs : BlobStore) :
    ReportsAlike F C url key ec blobs
      ↔ C.isValid url = false ∨ Decodes F blobs ((C.path url).drop 1) := by
  have hhonest := decode_honest hopen
  obtain ⟨hparam, hparam_ec⟩ := decodeParam_ok (F := F) (C := C) url key ec blobs
  have hparam_honest : (decodeParam F C url key ec blobs).ec.failed = true
      ↔ (decodeParam F C url key ec blobs).ok = false := by
    rw [hparam_ec, hparam, hhonest _ _ _ _ hec]
    simp
  cases hvalid : C.isValid url with
  | false =>
      refine ⟨fun _ => Or.inl rfl, fun _ => ⟨?_, by rw [hparam], hparam_honest, ?_⟩⟩
      · exact ⟨_, decodeUrl_invalid hvalid ec blobs, by simp [hvalid],
          by simp [ErrorCode.failed]⟩
      · intro h
        rw [hvalid] at h
        cases h
  | true =>
      obtain ⟨u, hu, hok, huec⟩ := decodeUrl_valid (F := F) hvalid hpath ec blobs
      constructor
      · intro h
        right
        obtain ⟨u', hu', hfalse, -⟩ := h.of_url
        obtain rfl := Option.some.inj (hu.symm.trans hu')
        have hnot : ¬(decode F ((C.path url).drop 1) [] ec blobs).ok = false := by
          intro hdecode
          rw [hfalse.mpr (Or.inr hdecode)] at hok
          cases hok
        exact (decode_ok F _ [] ec blobs).mp (by simpa using hnot)
      · rintro (hfalse | hdecodes)
        · cases hfalse
        have hdecode := (decode_ok F _ [] ec blobs).mpr hdecodes
        have hclear := hhonest ((C.path url).drop 1) [] ec blobs hec
        rw [hdecode] at hclear
        refine ⟨⟨u, hu, ?_, ?_⟩, by rw [hparam], hparam_honest, ?_⟩
        · rw [hok, hdecode]
          simp [hvalid]
        · rw [hok, huec]
          simpa using hclear
        · intro _ htext u' hu'
          obtain rfl := Option.some.inj (hu.symm.trans hu')
          rw [hok, hparam, ← htext, hdecode]

/-! ## Base 16 and base 64 -/

/-- `encode` is an encoding of the framework for a text codec: decoding undoes
it. -/
def Undoes (F : Framework) : Codec → (Bytes → Bytes) → Prop
  | .base16, encode => ∀ s, F.base16Decode (encode s) = s
  | .base64, encode => ∀ s, F.base64Decode (encode s) = s
  | _, _ => False

/-- The bytes are what the framework's decoder returns for an error. -/
def Collides : Codec → Bytes → Prop
  | .base16, s => s = ascii "E1" ∨ s = ascii "E2"
  | .base64, s => s = []
  | _, _ => False

theorem decoder_encoded {codec : Codec} {encode : Bytes → Bytes}
    (hround : Undoes F codec encode) (s output : Bytes) (ec : ErrorCode)
    (blobs : BlobStore) :
    (Collides codec s ∧ codec.decoder F (encode s) output ec blobs
        = ⟨false, output, .invalidArgument, blobs⟩)
      ∨ (¬Collides codec s
        ∧ codec.decoder F (encode s) output ec blobs = ⟨true, s, ec, blobs⟩) := by
  cases codec with
  | base16 =>
      simp only [Codec.decoder, decodeBase16, hround s, Collides]
      by_cases h : s = ascii "E1" ∨ s = ascii "E2"
      · exact Or.inl ⟨h, if_pos h⟩
      · exact Or.inr ⟨h, if_neg h⟩
  | base64 =>
      simp only [Codec.decoder, decodeBase64, hround s, Collides]
      by_cases h : s = []
      · exact Or.inl ⟨h, if_pos h⟩
      · exact Or.inr ⟨h, if_neg h⟩
  | tripleDes => exact hround.elim
  | blob => exact hround.elim
  | file => exact hround.elim

/-- **The text codecs are undone unless the bytes collide with an error.** -/
theorem text_codec_undone_iff {codec : Codec} {encode : Bytes → Bytes}
    (hround : Undoes F codec encode)
    (hset : ∀ url key value, C.param (C.setParam url key value) key = value)
    {url : Url} {key s : Bytes} {sep : Separator}
    (hvalue : C.param url key = codec.tag sep ++ encode s) (ec : ErrorCode)
    (blobs : BlobStore) :
    ((decodeParam F C url key ec blobs).ok = true
        ∧ (decodeParam F C url key ec blobs).ec.failed = false
        ∧ C.param (decodeParam F C url key ec blobs).url key = s)
      ↔ ¬Collides codec s ∧ ec.failed = false := by
  have htagged : Tagged codec (encode s) (C.param url key) := ⟨sep, hvalue⟩
  have hdecode := decode_tagged htagged F [] ec blobs
  rcases decoder_encoded hround s [] ec blobs with ⟨hcollides, heq⟩ | ⟨hfree, heq⟩
  · simp only [decodeParam, hdecode, heq, Bool.false_eq_true, if_false, false_and, false_iff]
    exact fun h => h.1 hcollides
  · simp only [decodeParam, hdecode, heq, if_true, true_and, hset, and_true]
    exact ⟨fun h => ⟨hfree, h⟩, fun h => h.2⟩

/-! ## A framework to try it on -/

namespace Hex

def digit (n : Nat) : UInt8 := if n < 10 then .ofNat (48 + n) else .ofNat (55 + n)

def value (c : UInt8) : Option Nat :=
  if 48 ≤ c ∧ c ≤ 57 then some (c.toNat - 48)
  else if 65 ≤ c ∧ c ≤ 70 then some (c.toNat - 55)
  else none

def encode (s : Bytes) : Bytes :=
  s.flatMap fun c => [digit (c.toNat / 16), digit (c.toNat % 16)]

/-- The bytes, or the name of the error: an odd length or a wrong digit. -/
def parse : Bytes → Except Bytes Bytes
  | [] => .ok []
  | [_] => .error (ascii "E1")
  | a :: b :: rest =>
      match value a, value b with
      | some hi, some lo => (parse rest).map fun s => .ofNat (16 * hi + lo) :: s
      | _, _ => .error (ascii "E2")

def decode (text : Bytes) : Bytes :=
  match parse text with
  | .ok s => s
  | .error name => name

theorem value_digit : ∀ n < 16, value (digit n) = some n := by decide

theorem decode_encode (s : Bytes) : decode (encode s) = s := by
  have hparse : parse (encode s) = .ok s := by
    induction s with
    | nil => rfl
    | cons c s ih =>
        have hc := c.toNat_lt
        have hhi : c.toNat / 16 < 16 := by omega
        have hlo : c.toNat % 16 < 16 := by omega
        have hbyte : 16 * (c.toNat / 16) + c.toNat % 16 = c.toNat := by omega
        simp only [encode, List.flatMap_cons, List.cons_append, List.nil_append, parse,
          value_digit _ hhi, value_digit _ hlo, hbyte]
        rw [← encode, ih]
        simp [Except.map]
  rw [decode, hparse]

end Hex

/-- Base 16 digits, and nothing that parses, deciphers or opens. -/
def hexFramework : Framework where
  base16Decode := Hex.decode
  base64Decode text := text
  parse2 _ := (.invalidArgument, 0)
  pptv3DesD _ _ _ := none
  readFile _ := .error (.other 2)

theorem hex_undoes : Undoes hexFramework .base16 Hex.encode := Hex.decode_encode

structure PlainUrl where
  path : Bytes
  params : List (Bytes × Bytes)

/-- URLs without a query, `"http://"` and a path, and parameters set by hand. -/
def plainUrl : UrlClass PlainUrl where
  ofString text := ⟨text.drop 7, []⟩
  isValid _ := true
  path := PlainUrl.path
  setPath url path := { url with path }
  params := PlainUrl.params
  param url key := (url.params.lookup key).getD []
  setParam url key value := { url with params := (key, value) :: url.params }

/-- A plain path is reported alike, one that asks for a missing blob is not. -/
theorem reports_alike_iff_movie :
    ReportsAlike hexFramework plainUrl ⟨ascii "/movie", []⟩ [] .success .empty
      ∧ ¬ReportsAlike hexFramework plainUrl ⟨ascii "/blob|key", []⟩ [] .success .empty := by
  have hopen : OpenFails hexFramework := fun _ e h => by cases h; rfl
  constructor
  · have hdecodes := (decode_ok hexFramework (ascii "movie") [] .success .empty).mp
      (by decide +kernel)
    exact (reports_alike_iff hopen (by decide) rfl [] .empty).mpr (Or.inr hdecodes)
  · refine (reports_alike_iff hopen (by decide) rfl [] .empty).not.mpr ?_
    rintro (hinvalid | hdecodes)
    · cases hinvalid
    · have hok := (decode_ok hexFramework (ascii "blob|key") [] .success .empty).mpr hdecodes
      exact absurd hok (by decide +kernel)

/-- The path asks for a blob that is not there: `true`, with an error code. As
a parameter value the same text gets `false`. -/
theorem decodeUrl_missing_blob :
    (decodeUrl hexFramework plainUrl ⟨ascii "/blob|key", []⟩ .success .empty).map
        (fun u => (u.ok, u.ec)) = some (true, .itemNotExist)
      ∧ (decode hexFramework (ascii "blob|key") [] .success .empty).ok = false
      ∧ (decodeParam hexFramework plainUrl ⟨[], [([], ascii "blob|key")]⟩ [] .success
          .empty).ok = false := by
  refine ⟨?_, ?_, ?_⟩ <;> decide +kernel

theorem plainUrl_set (url : PlainUrl) (key value : Bytes) :
    plainUrl.param (plainUrl.setParam url key value) key = value := by
  simp [plainUrl]

theorem text_codec_undone_iff_film :
    (decodeParam hexFramework plainUrl ⟨[], [([], ascii "base16|46494C4D")]⟩ [] .success
        .empty).ok = true
      ∧ (decodeParam hexFramework plainUrl ⟨[], [([], ascii "base16|46494C4D")]⟩ []
        .success .empty).ec.failed = false
      ∧ plainUrl.param (decodeParam hexFramework plainUrl
        ⟨[], [([], ascii "base16|46494C4D")]⟩ [] .success .empty).url [] = ascii "FILM" := by
  have hvalue : plainUrl.param ⟨[], [([], ascii "base16|46494C4D")]⟩ []
      = Codec.base16.tag .bar ++ Hex.encode (ascii "FILM") := by decide
  have hfree : ¬Collides .base16 (ascii "FILM") := by
    unfold Collides
    decide
  exact (text_codec_undone_iff hex_undoes plainUrl_set hvalue .success .empty).mpr ⟨hfree, rfl⟩

/-- The two bytes `"E1"`, encoded in base 16, are taken for an error. -/
theorem text_codec_collision :
    Undoes hexFramework .base16 Hex.encode
      ∧ ascii "base16|4531" = Codec.base16.tag .bar ++ Hex.encode (ascii "E1")
      ∧ (decodeParam hexFramework plainUrl ⟨[], [([], ascii "base16|4531")]⟩ [] .success
          .empty).ok = false
      ∧ (decodeParam hexFramework plainUrl ⟨[], [([], ascii "base16|4531")]⟩ [] .success
          .empty).ec = .invalidArgument := by
  refine ⟨hex_undoes, ?_, ?_, ?_⟩ <;> decide +kernel

end JustCommon
