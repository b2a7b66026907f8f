import JustCommon.UrlDecode

/-!
# What a call on a URL leaves behind

`decode_url` and `decode_param` change the URL only once their decode step
has succeeded. The step itself can only change the blob manager, where
reading a one-shot blob takes it out, and a read that finds nothing takes
nothing. So a call that fails leaves the URL and the blobs as they were,
and says so in the error code.
-/

namespace JustCommon

variable {Url : Type} {F : Framework} {C : UrlClass Url}

/-! ## A decode that fails -/

/-- Whatever the error code was before: a decode that fails sets it, and has
not touched the blobs. -/
theorem decode_failed (hopen : OpenFails F) {text output : Bytes} {ec : ErrorCode}
    {blobs : BlobStore} (h : (decode F text output ec blobs).ok = false) :
    (decode F text output ec blobs).blobs = blobs
      ∧ (decode F text output ec blobs).ec.failed = true := by
  rcases decode_leaves F text output ec blobs with ⟨-, hok, -⟩ | ⟨-, e, heq, he⟩
  · rw [hok] at h
    cases h
  · rw [heq]
    exact ⟨rfl, he hopen⟩

/-! ## The two entry points -/

/-- **A failed decode changes nothing.** An invalid URL and a path that does
not decode leave the URL and the blobs as they were, and so does a parameter
that does not decode; the error code is set. -/
theorem failed_decode_unchanged (hopen : OpenFails F) {url : Url}
    (hpath : C.isValid url = true → C.path url ≠ []) (key : Bytes) (ec : ErrorCode)
    (blobs : BlobStore) :
    (∃ u, decodeUrl F C url ec blobs = some u
        ∧ (C.isValid url = false ∨ (decode F ((C.path url).drop 1) [] ec blobs).ok = false →
          C.path u.url = C.path url ∧ C.params u.url = C.params url ∧ u.url = url
            ∧ u.blobs = blobs ∧ u.ec.failed = true))
      ∧ ((decodeParam F C url key ec blobs).ok = false →
        C.path (decodeParam F C url key ec blobs).url = C.path url
          ∧ C.params (decodeParam F C url key ec blobs).url = C.params url
          ∧ (decodeParam F C url key ec blobs).url = url
          ∧ (decodeParam F C url key ec blobs).blobs = blobs
          ∧ (decodeParam F C url key ec blobs).ec.failed = true) := by
  constructor
  · cases hvalid : C.isValid url with
    | false =>
        exact ⟨_, decodeUrl_invalid hvalid ec blobs, fun _ => ⟨rfl, rfl, rfl, rfl, rfl⟩⟩
    | true =>
        have hnonempty := hpath hvalid
        unfold decodeUrl
        rw [hvalid]
        cases hp : C.path url with
        | nil => exact absurd hp hnonempty
        | cons c text =>
            refine ⟨_, rfl, ?_⟩
            rintro (hfalse | hfailed)
            · cases hfalse
            · rw [List.drop_one, List.tail_cons] at hfailed
              obtain ⟨hblobs, hec⟩ := decode_failed hopen hfailed
              rw [if_neg (by rw [hfailed]; exact Bool.false_ne_true)]
              exact ⟨hp, rfl, rfl, hblobs, hec⟩
  · intro h
    have hfailed : (decode F (C.param url key) [] ec blobs).ok = false := by
      rw [← (decodeParam_ok (F := F) (C := C) url key ec blobs).1]
      exact h
    obtain ⟨hblobs, hec⟩ := decode_failed hopen hfailed
    unfold decodeParam
    rw [if_neg (by rw [hfailed]; exact Bool.false_ne_true)]
    exact ⟨rfl, rfl, rfl, hblobs, hec⟩

/-- A blob that is not there, asked for by the path and by a parameter. -/
theorem failed_decode_unchanged_blob :
    (∃ u, decodeUrl hexFramework plainUrl ⟨ascii "/blob|key", [([], ascii "blob|key")]⟩
          .success .empty = some u
        ∧ (plainUrl.isValid ⟨ascii "/blob|key", [([], ascii "blob|key")]⟩ = false
            ∨ (decode hexFramework (ascii "blob|key") [] .success .empty).ok = false →
          plainUrl.path u.url = ascii "/blob|key"
            ∧ plainUrl.params u.url = [([], ascii "blob|key")]
            ∧ u.url = ⟨ascii "/blob|key", [([], ascii "blob|key")]⟩
            ∧ u.blobs = .empty ∧ u.ec.failed = true))
      ∧ (decodeParam hexFramework plainUrl ⟨ascii "/blob|key", [([], ascii "blob|key")]⟩ []
          .success .empty).blobs = .empty := by
  have hboth := @failed_decode_unchanged _ hexFramework plainUrl
    (fun _ e h => by cases h; rfl) ⟨ascii "/blob|key", [([], ascii "blob|key")]⟩
    (fun _ => by decide) [] .success .empty
  exact ⟨hboth.1, (hboth.2 (by decide +kernel)).2.2.2.1⟩

end JustCommon
