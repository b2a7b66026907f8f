import JustCommon.OneShotRuns
import JustCommon.Simulation
import JustCommon.UrlGrammar

/-!
# Blobs behind URLs

One blob manager, the calls others make on it, and the URLs and parameters
that are decoded over it. A decoding is a `get` of the blob its text names,
if it names one, and nothing else on the manager. So the manager goes the way
of a one-shot map that is told of these, and what a one-shot blob is decoded
to is its bytes, for one decoding at most.
-/

namespace JustCommon

open OneShot

variable {Url : Type}

/-- The key of the blob a text names. -/
def blobKey (text : Bytes) : Option Bytes :=
  if (Codec.tag .blob .bar).isPrefixOf text then
    some (text.drop (Codec.tag .blob .bar).length)
  else if (Codec.tag .blob .slash).isPrefixOf text then
    some (text.drop (Codec.tag .blob .slash).length)
  else none

theorem blobKey_eq_some {text key : Bytes} : blobKey text = some key ↔ Tagged .blob key text := by
  constructor
  · intro h
    unfold blobKey at h
    split at h
    · rename_i hpre
      obtain ⟨rest, rfl⟩ : Codec.tag .blob .bar <+: text := by simpa using hpre
      obtain rfl := Option.some.inj h
      exact ⟨.bar, by rw [List.drop_left]⟩
    · split at h
      · rename_i hpre
        obtain ⟨rest, rfl⟩ : Codec.tag .blob .slash <+: text := by simpa using hpre
        obtain rfl := Option.some.inj h
        exact ⟨.slash, by rw [List.drop_left]⟩
      · cases h
  · rintro ⟨sep, rfl⟩
    cases sep <;> rfl

/-- A call on the manager, or a decoding over it. -/
inductive Fetch (Url : Type) where
  | call (op : BlobOp)
  | url (url : Url) (ec : ErrorCode)
  | param (url : Url) (key : Bytes) (ec : ErrorCode)

namespace Fetch

/-- The text that is decoded, and the error code at entry. -/
def decoded (C : UrlClass Url) : Fetch Url → Option (Bytes × ErrorCode)
  | .call _ => none
  | .url u ec => if C.isValid u ∧ C.path u ≠ [] then some ((C.path u).drop 1, ec) else none
  | .param u key ec => some (C.param u key, ec)

end Fetch

/-- `decode_url` of a valid URL without a path throws. -/
def fetching (F : Framework) (C : UrlClass Url) : Lts BlobStore (Fetch Url) where
  init blobs := blobs = BlobStore.empty
  step blobs
    | .call op => some (blobs.exec op).2
    | .url url ec => (decodeUrl F C url ec blobs).map UrlOutcome.blobs
    | .param url key ec => some (decodeParam F C url key ec blobs).blobs

namespace BlobStore

variable {F : Framework} {C : UrlClass Url} {blobs blobs' : BlobStore}

/-! ## What reaches the manager -/

theorem exec_view (blobs : BlobStore) (op : BlobOp) :
    (blobs.exec op).2.1.view = (Map.exec blobs.1.view op).2 := by
  obtain ⟨m', hexec, -, hview⟩ := BlobManager.exec_refines blobs.2 op
  simp only [exec, hexec, Option.get_some, hview]

/-- The calls on the manager in a step. -/
def told (C : UrlClass Url) (_ : BlobStore) : Fetch Url → List BlobOp
  | .call op => [op]
  | a => ((a.decoded C).bind fun text => blobKey text.1).toList.map .get

/-- A decoder other than that of blobs leaves the manager alone. -/
theorem decoder_blobs {codec : Codec} (hcodec : codec ≠ .blob) (F : Framework)
    (rest output : Bytes) (ec : ErrorCode) (blobs : BlobStore) :
    (codec.decoder F rest output ec blobs).blobs = blobs := by
  cases codec with
  | blob => exact absurd rfl hcodec
  | base16 =>
      simp only [Codec.decoder, decodeBase16]
      split <;> rfl
  | base64 =>
      simp only [Codec.decoder, decodeBase64]
      split <;> rfl
  | file =>
      simp only [Codec.decoder, decodeFile]
      split <;> rfl
  | tripleDes =>
      simp only [Codec.decoder, decode3Des, decipher]
      split
      · rfl
      · split
        · rfl
        · split
          · rfl
          · split <;> rfl

theorem decode_blobs (F : Framework) (text output : Bytes) (ec : ErrorCode)
    (blobs : BlobStore) : (decode F text output ec blobs).blobs
      = (blobKey text).elim blobs fun key => (blobs.exec (.get key)).2 := by
  rcases tagged_or_not text with ⟨codec, rest, htag⟩ | hnot
  · rw [decode_tagged htag]
    by_cases hcodec : codec = .blob
    · subst hcodec
      rw [blobKey_eq_some.mpr htag, Option.elim_some]
      simp only [Codec.decoder, decodeBlob]
      split <;> rfl
    · have hnone : blobKey text = none := by
        cases hkey : blobKey text with
        | none => rfl
        | some key => exact absurd (htag.unique (blobKey_eq_some.mp hkey)).1 hcodec
      rw [decoder_blobs hcodec, hnone, Option.elim_none]
  · have hnone : blobKey text = none := by
      cases hkey : blobKey text with
      | none => rfl
      | some key => exact absurd (blobKey_eq_some.mp hkey) (hnot _ _)
    rw [decode_untagged hnot, hnone, Option.elim_none]

/-- The manager after a decoding. -/
theorem step_decoded {a : Fetch Url} (hcall : ∀ op, a ≠ .call op)
    (h : (fetching F C).step blobs a = some blobs') :
    blobs' = (a.decoded C).elim blobs fun text => (decode F text.1 [] text.2 blobs).blobs := by
  cases a with
  | call op => exact absurd rfl (hcall op)
  | url u ec =>
      obtain ⟨outcome, houtcome, rfl⟩ := Option.map_eq_some_iff.mp h
      unfold decodeUrl at houtcome
      cases hvalid : C.isValid u with
      | false =>
          simp only [hvalid, Bool.not_false, if_true] at houtcome
          obtain rfl := Option.some.inj houtcome
          simp [Fetch.decoded, hvalid]
      | true =>
          simp only [hvalid, Bool.not_true, Bool.false_eq_true, if_false] at houtcome
          cases hpath : C.path u with
          | nil =>
              rw [hpath] at houtcome
              cases houtcome
          | cons c text =>
              rw [hpath] at houtcome
              obtain rfl := Option.some.inj houtcome
              simp [Fetch.decoded, hvalid, hpath]
  | param u key ec =>
      obtain rfl := Option.some.inj h
      simp only [Fetch.decoded, Option.elim_some, decodeParam]
      split <;> rfl

theorem told_decoded {a : Fetch Url} (hcall : ∀ op, a ≠ .call op) (blobs : BlobStore) :
    told C blobs a = ((a.decoded C).bind fun text => blobKey text.1).toList.map .get := by
  cases a with
  | call op => exact absurd rfl (hcall op)
  | url _ _ => rfl
  | param _ _ _ => rfl

/-- A step is on the map what the manager is told. -/
theorem step_told {a : Fetch Url} (h : (fetching F C).step blobs a = some blobs') :
    (store Bytes Bytes).run blobs.1.view (told C blobs a) = some blobs'.1.view := by
  by_cases hcall : ∃ op, a = .call op
  · obtain ⟨op, rfl⟩ := hcall
    obtain rfl := Option.some.inj h
    rw [told, Lts.run_singleton, exec_view]
    rfl
  · have hcall : ∀ op, a ≠ .call op := fun op ha => hcall ⟨op, ha⟩
    rw [step_decoded hcall h, told_decoded hcall]
    cases a.decoded C with
    | none => rfl
    | some text =>
        rw [Option.bind_some, Option.elim_some, decode_blobs]
        cases blobKey text.1 with
        | none => rfl
        | some key =>
            rw [Option.elim_some, exec_view]
            rfl

/-- The manager, told of the calls, is a one-shot map. -/
def fetchSimulation (F : Framework) (C : UrlClass Url) :
    Lts.Simulation (fetching F C) (store Bytes Bytes) fun _ => True where
  abs blobs := blobs.1.view
  tell := told C
  step _ _ _ _ h := ⟨trivial, step_told h⟩

/-! ## What comes out -/

/-- The entry under the key is to be read once. -/
def isOneShot (key : Bytes) (blobs : BlobStore) : Bool := (blobs.1.view key).any Prod.snd

/-- The bytes under the key: none or those of one blob. -/
def stored (key : Bytes) (blobs : BlobStore) : List Bytes :=
  (blobs.1.view key).toList.map Prod.fst

/-- What an insertion that is accepted puts under the key. -/
def inserted (key : Bytes) (blobs : BlobStore) : Fetch Url → List Bytes
  | .call (.insert k data once) =>
      if k = key ∧ (blobs.exec (.insert k data once)).1.ec.failed = false then [data] else []
  | _ => []

/-- What a one-shot blob is read as, by a `get` or by the decoding of a text that
names it, and what is removed. -/
def handedOut (F : Framework) (C : UrlClass Url) (key : Bytes) (blobs : BlobStore) :
    Fetch Url → List Bytes
  | .call (.insert _ _ _) => []
  | .call (.get k) =>
      if k = key ∧ blobs.isOneShot key then (blobs.exec (.get k)).1.bytes.toList else []
  | .call (.remove k) => if k = key then blobs.stored key else []
  | a =>
      (a.decoded C).elim [] fun text =>
        if blobKey text.1 = some key ∧ blobs.isOneShot key then
          [(decode F text.1 [] text.2 blobs).output]
        else []

theorem inserted_eq (key : Bytes) (blobs : BlobStore) (a : Fetch Url) :
    blobs.inserted key a
      = (store Bytes Bytes).collect (Map.stores key) blobs.1.view (told C blobs a) := by
  cases a with
  | call op =>
      cases op with
      | insert k data once =>
          rw [inserted, told, Lts.collect_cons rfl, exec_fst, Lts.collect_nil, List.append_nil]
          by_cases hk : k = key
          · subst hk
            cases hview : blobs.1.view k with
            | none => simp [Map.exec, Map.stores, hview, BlobResult.ofReply, ErrorCode.failed]
            | some entry =>
                simp [Map.exec, Map.stores, hview, BlobResult.ofReply, ErrorCode.failed]
          · simp [Map.stores, hk]
      | get k => rfl
      | remove k => rfl
  | url u ec =>
      rw [told_decoded fun _ h => by cases h]
      cases (Fetch.decoded C (.url u ec)).bind fun text => blobKey text.1 <;> rfl
  | param u k ec =>
      rw [told_decoded fun _ h => by cases h]
      cases (Fetch.decoded C (.param u k ec)).bind fun text => blobKey text.1 <;> rfl

theorem isOneShot_view {key : Bytes} {blobs : BlobStore} (h : blobs.isOneShot key = true) :
    ∃ data, blobs.1.view key = some (data, true) ∧ Map.oneShot key blobs.1.view = [data] := by
  rw [isOneShot] at h
  obtain ⟨⟨data, once⟩, hview, honce⟩ := (Option.any_eq_true _ _).mp h
  obtain rfl : once = true := honce
  refine ⟨data, hview, ?_⟩
  rw [Map.oneShot, hview]
  rfl

theorem oneShot_of_not {key : Bytes} {blobs : BlobStore} (h : ¬blobs.isOneShot key = true) :
    Map.oneShot key blobs.1.view = [] := by
  rw [isOneShot] at h
  rw [Map.oneShot]
  cases hview : blobs.1.view key with
  | none => rfl
  | some entry =>
      rw [hview, Option.any_some] at h
      rw [Option.filter_some, if_neg h]
      rfl

theorem takes_get (key k : Bytes) (blobs : BlobStore) :
    (store Bytes Bytes).collect (Map.takes key) blobs.1.view [.get k]
      = if k = key then Map.oneShot key blobs.1.view else [] := by
  rw [Lts.collect_cons rfl, Lts.collect_nil, List.append_nil, Map.takes]

theorem handedOut_decoded {a : Fetch Url} (hcall : ∀ op, a ≠ .call op) (key : Bytes)
    (blobs : BlobStore) :
    blobs.handedOut F C key a = (a.decoded C).elim [] fun text =>
      if blobKey text.1 = some key ∧ blobs.isOneShot key then
        [(decode F text.1 [] text.2 blobs).output]
      else [] := by
  cases a with
  | call op => exact absurd rfl (hcall op)
  | url _ _ => rfl
  | param _ _ _ => rfl

theorem handedOut_eq (key : Bytes) (blobs : BlobStore) (a : Fetch Url) :
    blobs.handedOut F C key a
      = (store Bytes Bytes).collect (Map.takes key) blobs.1.view (told C blobs a) := by
  by_cases hcall : ∃ op, a = .call op
  · obtain ⟨op, rfl⟩ := hcall
    cases op with
    | insert k data once => rfl
    | get k =>
        rw [told, takes_get, handedOut, exec_get]
        by_cases hk : k = key
        · subst hk
          by_cases hone : blobs.isOneShot k = true
          · obtain ⟨data, hview, hbytes⟩ := isOneShot_view hone
            rw [if_pos ⟨rfl, hone⟩, if_pos rfl, hview, hbytes]
            rfl
          · rw [if_neg fun h => hone h.2, if_pos rfl, oneShot_of_not hone]
        · rw [if_neg fun h => hk h.1, if_neg hk]
    | remove k =>
        rw [told, Lts.collect_cons rfl, Lts.collect_nil, List.append_nil]
        rfl
  · have hcall : ∀ op, a ≠ .call op := fun op ha => hcall ⟨op, ha⟩
    rw [handedOut_decoded hcall, told_decoded hcall]
    cases a.decoded C with
    | none => rfl
    | some text =>
        rw [Option.bind_some, Option.elim_some]
        cases hkey : blobKey text.1 with
        | none => rfl
        | some k =>
            rw [Option.toList_some, List.map_singleton, takes_get]
            by_cases hk : k = key
            · subst hk
              rw [if_pos rfl]
              by_cases hone : blobs.isOneShot k = true
              · obtain ⟨data, hview, hbytes⟩ := isOneShot_view hone
                rw [if_pos ⟨rfl, hone⟩, hbytes, decode_tagged (blobKey_eq_some.mp hkey),
                  Codec.decoder, decodeBlob_found hview]
              · rw [if_neg fun h => hone h.2, oneShot_of_not hone]
            · rw [if_neg fun h => hk (Option.some.inj h.1), if_neg hk]

/-- **A one-shot blob is read once.** In every run of calls on the manager and of
URLs and parameters decoded over it, the bytes that were inserted under a key
are those that were read as a one-shot blob or removed, each once and in the
order of the insertions, and then the one that is still stored. -/
theorem blob_read_once (key : Bytes) {l : List (Fetch Url)}
    (h : (fetching F C).run blobs l = some blobs') :
    blobs.stored key ++ (fetching F C).collect (inserted key) blobs l
      = (fetching F C).collect (handedOut F C key) blobs l ++ blobs'.stored key := by
  obtain ⟨-, hrun⟩ := (fetchSimulation F C).run h trivial
  have hin := (fetchSimulation F C).collect_eq (f := inserted key) (g := Map.stores key)
    (fun blobs a _ _ _ => inserted_eq key blobs a) h trivial
  have hout := (fetchSimulation F C).collect_eq (f := handedOut F C key) (g := Map.takes key)
    (fun blobs a _ _ _ => handedOut_eq key blobs a) h trivial
  rw [hin, hout]
  exact Map.stored_run key hrun

/-- A one-shot film that a parameter and then a path ask for, and the next one. -/
def films : List (Fetch PlainUrl) := [
  .call (.insert (ascii "film") [1, 2] true),
  .param ⟨[], [([], ascii "blob|film")]⟩ [] .success,
  .url ⟨ascii "/blob/film", []⟩ .success,
  .call (.insert (ascii "film") [3] true)]

theorem blob_read_once_films :
    ∃ blobs', (fetching hexFramework plainUrl).run .empty films = some blobs'
      ∧ [[1, 2], [3]]
        = (fetching hexFramework plainUrl).collect (handedOut hexFramework plainUrl
            (ascii "film")) .empty films ++ blobs'.stored (ascii "film")
      ∧ blobs'.stored (ascii "film") = [[3]] := by
  have hsome : (((fetching hexFramework plainUrl).run .empty films).map
      (stored (ascii "film"))) = some [[3]] := by decide +kernel
  obtain ⟨blobs', hrun, hstored⟩ := Option.map_eq_some_iff.mp hsome
  have hin : (fetching hexFramework plainUrl).collect (inserted (ascii "film")) .empty films
      = [[1, 2], [3]] := by decide +kernel
  have honce := blob_read_once (ascii "film") hrun
  rw [hin] at honce
  exact ⟨blobs', hrun, honce, hstored⟩

end BlobStore

end JustCommon
