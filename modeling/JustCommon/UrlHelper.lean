import JustCommon.BlobRefine

/-!
# Decoding of URLs

`decode` looks for the tag its input starts with and hands the rest to the
codec of the tag; `decode_url` applies it to the path of a URL, and
`decode_param` to the value of a parameter. The `Framework` is what the
codecs call: the base 16 and base 64 decoders, the number parser, the
cipher and the file system. `framework::string::Url` is a parameter as well.

The parameters of a URL also carry options of the configuration
(`apply_config`) and defaults for another URL (`apply_params`).
-/

namespace JustCommon

structure Framework where
  /-- `Base16::decode`; `"E1"` and `"E2"` are errors. -/
  base16Decode : Bytes → Bytes
  /-- `Base64::decode`; the empty string is an error. -/
  base64Decode : Bytes → Bytes
  /-- `parse2(text, number)`: what it returns, and the number. -/
  parse2 : Bytes → ErrorCode × UInt32
  /-- `Des::pptv_3_des_d(input, size, key, 24, output, size)`: the `size` bytes
  of output, if it succeeds. -/
  pptv3DesD : (input key : Bytes) → (size : Nat) →
    Option { output : Bytes // output.length = size }
  /-- Reading a whole file: its bytes, or `last_system_error()` after the open. -/
  readFile : (name : Bytes) → Except ErrorCode Bytes

/-- `result` after the cipher wrote to it. -/
def Framework.des (F : Framework) (input key : Bytes) (size : Nat) : Option Bytes :=
  (F.pptv3DesD input key size).map Subtype.val

/-- The operations of `framework::string::Url`. -/
structure UrlClass (Url : Type) where
  /-- `Url(text)` -/
  ofString : Bytes → Url
  isValid : Url → Bool
  path : Url → Bytes
  setPath : Url → Bytes → Url
  /-- `param_begin()` to `param_end()` -/
  params : Url → List (Bytes × Bytes)
  param : Url → Bytes → Bytes
  setParam : Url → Bytes → Bytes → Url

/-! ## The codecs -/

/-- What a decoder leaves: its result, `output`, `ec` and the blob manager. -/
structure Outcome where
  ok : Bool
  output : Bytes
  ec : ErrorCode
  blobs : BlobStore

/-- A decoder gets its input, and `output`, `ec` and the blob manager as they
are before the call. -/
abbrev Decoder := Framework → Bytes → Bytes → ErrorCode → BlobStore → Outcome

def decodeBase16 : Decoder := fun F input output ec blobs =>
  let result := F.base16Decode input
  if result = ascii "E1" ∨ result = ascii "E2" then ⟨false, output, .invalidArgument, blobs⟩
  else ⟨true, result, ec, blobs⟩

def decodeBase64 : Decoder := fun F input output ec blobs =>
  let result := F.base64Decode input
  if result = [] then ⟨false, output, .invalidArgument, blobs⟩
  else ⟨true, result, ec, blobs⟩

def gsKey : List Bytes := [
  [0x70, 0x70, 0x6c, 0x69, 0x76, 0x65, 0x6f, 0x6b],
  [0x15, 0xb9, 0xfd, 0xae, 0xda, 0x40, 0xf8, 0x6b, 0xf7, 0x1c, 0x73, 0x29,
    0x25, 0x16, 0x92, 0x4a, 0x29, 0x4f, 0xc8, 0xba, 0x31, 0xb6, 0xe9, 0xea],
  [0x29, 0x02, 0x8a, 0x76, 0x98, 0xef, 0x4c, 0x6d, 0x3d, 0x25, 0x2f, 0x02,
    0xf4, 0xf7, 0x9d, 0x58, 0x15, 0x38, 0x9d, 0xf1, 0x85, 0x25, 0xd3, 0x26],
  [0xd0, 0x46, 0xe6, 0xb6, 0xa4, 0xa8, 0x5e, 0xb6, 0xc4, 0x4c, 0x73, 0x37,
    0x2a, 0x0d, 0x5d, 0xf1, 0xae, 0x76, 0x40, 0x51, 0x73, 0xb3, 0xd5, 0xec],
  [0x43, 0x52, 0x29, 0xc8, 0xf7, 0x98, 0x31, 0x13, 0x19, 0x23, 0xf1, 0x8c,
    0x5d, 0xe3, 0x2f, 0x25, 0x3e, 0x2a, 0xf2, 0xad, 0x34, 0x8c, 0x46, 0x15],
  [0x9b, 0x29, 0x15, 0xa7, 0x2f, 0x83, 0x29, 0xa2, 0xfe, 0x6b, 0x68, 0x1c,
    0x8a, 0xae, 0x1f, 0x97, 0xab, 0xa8, 0xd9, 0xd5, 0x85, 0x76, 0xab, 0x20],
  [0xb3, 0xb0, 0xcd, 0x83, 0x0d, 0x92, 0xcb, 0x37, 0x20, 0xa1, 0x3e, 0xf4,
    0xd9, 0x3b, 0x1a, 0x13, 0x3d, 0xa4, 0x49, 0x76, 0x67, 0xf7, 0x51, 0x91],
  [0xad, 0x32, 0x7a, 0xfb, 0x5e, 0x19, 0xd0, 0x23, 0x15, 0x0e, 0x38, 0x2f,
    0x6d, 0x3b, 0x3e, 0xb5, 0xb6, 0x31, 0x91, 0x20, 0x64, 0x9d, 0x31, 0xf8],
  [0xc4, 0x2f, 0x31, 0xb0, 0x08, 0xbf, 0x25, 0x70, 0x67, 0xab, 0xf1, 0x15,
    0xe0, 0x34, 0x6e, 0x29, 0x23, 0x13, 0xc7, 0x46, 0xb3, 0x58, 0x1f, 0xb0],
  [0x52, 0x9b, 0x75, 0xba, 0xe0, 0xce, 0x20, 0x38, 0x46, 0x67, 0x04, 0xa8,
    0x6d, 0x98, 0x5e, 0x1c, 0x25, 0x57, 0x23, 0x0d, 0xdf, 0x31, 0x1a, 0xbc],
  [0x8a, 0x52, 0x9d, 0x5d, 0xce, 0x91, 0xfe, 0xe3, 0x9e, 0x9e, 0xe9, 0x54,
    0x5d, 0xf4, 0x2c, 0x3d, 0x9d, 0xec, 0x2f, 0x76, 0x7c, 0x89, 0xce, 0xab]]

/-- `decode_3des` from the number and the `size` bytes of cipher text on. -/
def decipher (F : Framework) (number cipher : Bytes) (size : Nat) (output : Bytes)
    (blobs : BlobStore) : Outcome :=
  let parsed := F.parse2 number
  if parsed.1.failed then ⟨false, output, parsed.1, blobs⟩
  else if gsKey.length ≤ parsed.2.toNat ∨ parsed.2 = 0 then
    ⟨false, output, .invalidArgument, blobs⟩
  else
    match F.des cipher ((gsKey.getD parsed.2.toNat []).take 24) size with
    | some result => ⟨true, result, parsed.1, blobs⟩
    | none => ⟨false, output, .invalidArgument, blobs⟩

def decode3Des : Decoder := fun F input output _ blobs =>
  let colon := input.idxOf bar
  if input.length ≤ colon then ⟨false, output, .invalidArgument, blobs⟩
  else decipher F (input.take colon) (input.drop (colon + 1)) (input.length - (colon + 1))
    output blobs

def decodeBlob : Decoder := fun _ input output _ blobs =>
  let got := blobs.exec (.get input)
  if got.1.ec.failed then ⟨false, output, got.1.ec, got.2⟩
  else ⟨true, got.1.bytes.getD [], got.1.ec, got.2⟩

/-- `c_str()` ends at the first NUL. -/
def cStr (text : Bytes) : Bytes := text.takeWhile (· != 0)

/-- The bytes are inserted at the end of `output`. -/
def decodeFile : Decoder := fun F input output ec blobs =>
  match F.readFile (cStr input) with
  | .error e => ⟨false, output, e, blobs⟩
  | .ok content => ⟨true, output ++ content, ec, blobs⟩

def decoders : List (Bytes × Decoder) := [
  (ascii "base16|", decodeBase16),
  (ascii "base64|", decodeBase64),
  (ascii "3des|", decode3Des),
  (ascii "blob|", decodeBlob),
  (ascii "file|", decodeFile),
  (ascii "base16/", decodeBase16),
  (ascii "base64/", decodeBase64),
  (ascii "3des/", decode3Des),
  (ascii "blob/", decodeBlob),
  (ascii "file/", decodeFile)]

/-- The first decoder whose name the input starts with; without one the input
is the output. -/
def decode : Decoder := fun F input output ec blobs =>
  match decoders.find? fun entry => entry.1.isPrefixOf input with
  | some entry => entry.2 F (input.drop entry.1.length) output ec blobs
  | none => ⟨true, input, ec, blobs⟩

/-! ## URLs and parameters -/

/-- What a call on a URL returns and leaves. -/
structure UrlOutcome (Url : Type) where
  ok : Bool
  ec : ErrorCode
  url : Url
  blobs : BlobStore

variable {Url : Type}

/-- `none` is the exception of `substr(1)` on an empty path. The result of
`decode` decides what is done, not what is returned. -/
def decodeUrl (F : Framework) (C : UrlClass Url) (url : Url) (ec : ErrorCode)
    (blobs : BlobStore) : Option (UrlOutcome Url) :=
  if !C.isValid url then some ⟨false, .invalidUrl, url, blobs⟩
  else
    match C.path url with
    | [] => none
    | _ :: text =>
        let decoded := decode F text [] ec blobs
        let url' :=
          if decoded.ok then
            let ur12 := C.ofString (ascii "http:///" ++ decoded.output)
            (C.params ur12).foldl (fun url param => C.setParam url param.1 param.2)
              (C.setPath url (C.path ur12))
          else url
        some ⟨true, decoded.ec, url', decoded.blobs⟩

def decodeParam (F : Framework) (C : UrlClass Url) (url : Url) (key : Bytes)
    (ec : ErrorCode) (blobs : BlobStore) : UrlOutcome Url :=
  let decoded := decode F (C.param url key) [] ec blobs
  if decoded.ok then ⟨true, decoded.ec, C.setParam url key decoded.output, decoded.blobs⟩
  else ⟨false, decoded.ec, url, decoded.blobs⟩

def applyParams (C : UrlClass Url) (dst src : Url) : Url :=
  (C.params src).foldl
    (fun dst param =>
      if C.param dst param.1 = [] then C.setParam dst param.1 param.2 else dst) dst

/-! ## Options of the configuration -/

/-- The operations of `framework::configure::Config`. -/
structure ConfigClass (Conf : Type) where
  get : Conf → (sec key : Bytes) → Option Bytes
  setForce : Conf → (sec key value : Bytes) → Conf

def dot : UInt8 := 46

/-- `text.rfind(c)`, `none` for `npos`. -/
def rfind (c : UInt8) : Bytes → Option Nat
  | [] => none
  | b :: text =>
      match rfind c text with
      | some pos => some (pos + 1)
      | none => if b = c then some 0 else none

/-- `text.substr(pos, len)`, `none` for the exception of a position past the
end. -/
def substr (text : Bytes) (pos len : Nat) : Option Bytes :=
  if pos ≤ text.length then some ((text.drop pos).take len) else none

/-- A difference of two positions, `none` if it is negative. -/
def posDiff (a b : Nat) : Option Nat := if b ≤ a then some (a - b) else none

variable {Conf : Type}

/-- One parameter of `apply_config`. The comparison is of the first bytes of
the key, as many as `pre` has if there are that many. -/
def applyOption (K : ConfigClass Conf) (pre : Bytes) (config : Conf)
    (param : Bytes × Bytes) : Option Conf :=
  let key := param.1
  if key.take pre.length = pre then
    match rfind dot key with
    | none => some config
    | some posDot =>
        if posDot ≤ pre.length then some config
        else do
          let len ← posDiff posDot pre.length
          let sec ← substr key pre.length len
          let name ← substr key (posDot + 1) key.length
          some (K.setForce config sec name param.2)
  else some config

/-- `none` if a `substr` throws or is given a negative length. -/
def applyConfig (K : ConfigClass Conf) (C : UrlClass Url) (config : Conf) (url : Url)
    (pre : Bytes) : Option Conf :=
  (C.params url).foldlM (applyOption K pre) config

end JustCommon
