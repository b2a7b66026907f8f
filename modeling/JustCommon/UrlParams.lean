import JustCommon.KeyValues
import JustCommon.UrlDecode

/-!
# Parameters that move from one URL to another

`decode_url` writes every parameter of the decoded URL into the URL it was
given, `apply_params` those of `src` whose key has no value in `dst`. Both
loops read and write the list they change through `param`, so with repeated
keys a later round sees what an earlier one wrote. `Ordered` is what the
framework's URL promises about that list; under it the loops are the two
merges of `KeyValues`.
-/

namespace JustCommon

open KeyValues

variable {Url : Type} {F : Framework} {C : UrlClass Url}

/-- The parameters are an ordered list: `param(key)` returns the value of the
first match or the empty string, `param(key, value)` replaces that value or
appends an entry. Path and parameters are set apart from each other. -/
structure UrlClass.Ordered (C : UrlClass Url) : Prop where
  param : ∀ url key, C.param url key = ((C.params url).lookup key).getD []
  setParam : ∀ url key value, C.params (C.setParam url key value) = put (C.params url) key value
  setParam_path : ∀ url key value, C.path (C.setParam url key value) = C.path url
  setPath : ∀ url path, C.path (C.setPath url path) = path
  setPath_params : ∀ url path, C.params (C.setPath url path) = C.params url

theorem UrlClass.Ordered.param_of_lookup (hC : C.Ordered) {url : Url} {key value : Bytes}
    (h : (C.params url).lookup key = some value) : C.param url key = value := by
  rw [hC.param, h, Option.getD_some]

/-! ## A decoded URL -/

/-- The parameters `decode_url` writes, one after another. -/
def setParams (C : UrlClass Url) (url : Url) (params : List (Bytes × Bytes)) : Url :=
  params.foldl (fun url param => C.setParam url param.1 param.2) url

theorem setParams_params (hC : C.Ordered) (url : Url) (params : List (Bytes × Bytes)) :
    C.params (setParams C url params) = merge (fun _ => true) (C.params url) params := by
  induction params generalizing url with
  | nil => rfl
  | cons p params ih =>
      rw [setParams, List.foldl_cons, ← setParams, ih, hC.setParam]
      rfl

theorem setParams_path (hC : C.Ordered) (url : Url) (params : List (Bytes × Bytes)) :
    C.path (setParams C url params) = C.path url := by
  induction params generalizing url with
  | nil => rfl
  | cons p params ih =>
      rw [setParams, List.foldl_cons, ← setParams, ih, hC.setParam_path]

/-- `url'` is `url` with the path of `u2` and its parameters written over: a
key of `u2` has its last value there, an entry stays where it is, and the
keys that were not there follow, each once, by their first occurrence. -/
structure Overwritten (C : UrlClass Url) (url u2 url' : Url) : Prop where
  path : C.path url' = C.path u2
  last : ∀ before key value after, C.params u2 = before ++ (key, value) :: after →
    key ∉ keys after → C.param url' key = value
  other : ∀ key, key ∉ keys (C.params u2) → C.param url' key = C.param url key
  order : keys (C.params url') = keys (C.params url) ++ newKeys (C.params url) (C.params u2)
  once : (newKeys (C.params url) (C.params u2)).Nodup
  repeated : ∀ (i : Nat) key value, (C.params url)[i]? = some (key, value) →
    key ∈ (keys (C.params url)).take i → (C.params url')[i]? = some (key, value)

theorem setParams_overwritten (hC : C.Ordered) (url u2 : Url) :
    Overwritten C url u2 (setParams C (C.setPath url (C.path u2)) (C.params u2)) := by
  have hparams : C.params (setParams C (C.setPath url (C.path u2)) (C.params u2))
      = merge (fun _ => true) (C.params url) (C.params u2) := by
    rw [setParams_params hC, hC.setPath_params]
  refine ⟨?_, ?_, ?_, ?_, nodup_newKeys _ _, ?_⟩
  · rw [setParams_path hC, hC.setPath]
  · intro before key value after hsplit hafter
    refine hC.param_of_lookup ?_
    rw [hparams, lookup_overwrite, lookup_reverse_of_last hafter before value hsplit,
      Option.some_or]
  · intro key hkey
    rw [hC.param, hC.param, hparams, lookup_overwrite, lookup_reverse_eq_none.mpr hkey,
      Option.none_or]
  · rw [hparams, keys_merge rfl]
  · intro i key value hentry hrepeated
    rw [hparams]
    obtain ⟨value', hvalue', hor⟩ := getElem?_merge hentry (C.params u2)
    rcases hor with rfl | ⟨-, hfirst⟩
    · exact hvalue'
    · exact absurd hrepeated hfirst

/-- **What a successful `decode_url` does to the URL.** -/
theorem decodeUrl_overwrites (hC : C.Ordered) {url : Url} (hvalid : C.isValid url = true)
    (hpath : C.path url ≠ []) {ec : ErrorCode} {blobs : BlobStore} {o : Bytes}
    (hok : (decode F ((C.path url).drop 1) [] ec blobs).ok = true)
    (ho : (decode F ((C.path url).drop 1) [] ec blobs).output = o) :
    ∃ u, decodeUrl F C url ec blobs = some u ∧ u.ok = true
      ∧ Overwritten C url (C.ofString (ascii "http:///" ++ o)) u.url := by
  unfold decodeUrl
  rw [hvalid]
  cases hp : C.path url with
  | nil => exact absurd hp hpath
  | cons c text =>
      rw [hp, List.drop_one, List.tail_cons] at hok ho
      refine ⟨_, rfl, rfl, ?_⟩
      rw [if_pos hok, ho]
      exact setParams_overwritten hC url _

/-! ## Defaults -/

theorem getD_eq_nil_iff (o : Option Bytes) : o.getD [] = [] ↔ o.all List.isEmpty = true := by
  cases o with
  | none => simp
  | some value => simp

theorem applyParams_params (hC : C.Ordered) (dst src : Url) :
    C.params (applyParams C dst src) = fill List.isEmpty (C.params dst) (C.params src) := by
  unfold applyParams fill
  -- the source is not touched: the induction is on its parameters alone
  induction C.params src generalizing dst with
  | nil => rfl
  | cons p params ih =>
      rw [List.foldl_cons, ih, merge_cons, hC.param]
      by_cases hempty : ((C.params dst).lookup p.1).getD [] = []
      · rw [if_pos hempty, if_pos ((getD_eq_nil_iff _).mp hempty), hC.setParam]
      · rw [if_neg hempty, if_neg (fun h => hempty ((getD_eq_nil_iff _).mpr h))]

/-- The first value of `key` that is not empty, the empty string without one. -/
def firstValue (params : List (Bytes × Bytes)) (key : Bytes) : Bytes :=
  ((params.find? fun param => param.1 = key ∧ param.2 ≠ []).map Prod.snd).getD []

/-- `dst'` is `dst` with the parameters of `src` as defaults. -/
structure Defaulted (C : UrlClass Url) (dst src dst' : Url) : Prop where
  kept : ∀ key, C.param dst key ≠ [] → C.param dst' key = C.param dst key
  filled : ∀ key, C.param dst key = [] → C.param dst' key = firstValue (C.params src) key
  entries : ∀ (i : Nat) key value, (C.params dst)[i]? = some (key, value) →
    ∃ value', (C.params dst')[i]? = some (key, value')
      ∧ (value' = value ∨ (value = [] ∧ key ∉ (keys (C.params dst)).take i))
  order : keys (C.params dst') = keys (C.params dst) ++ newKeys (C.params dst) (C.params src)
  once : (newKeys (C.params dst) (C.params src)).Nodup

/-- A URL that is asked for a value cannot tell a blank one from none. -/
theorem param_eq_solid (hC : C.Ordered) (url : Url) (key : Bytes) :
    C.param url key = (solid List.isEmpty (C.params url) key).getD [] := by
  rw [hC.param, solid]
  cases hvalue : (C.params url).lookup key with
  | none => rfl
  | some value => cases value <;> rfl

theorem firstValue_eq (params : List (Bytes × Bytes)) (key : Bytes) :
    firstValue params key
      = ((params.find? fun p => p.1 = key ∧ p.2.isEmpty = false).map Prod.snd).getD [] := by
  have hsame : (fun p : Bytes × Bytes => decide (p.1 = key ∧ p.2 ≠ []))
      = fun p => decide (p.1 = key ∧ p.2.isEmpty = false) := by
    funext p
    cases p.2 <;> simp
  rw [firstValue, hsame]

theorem applyParams_param (hC : C.Ordered) (dst src : Url) (key : Bytes) :
    C.param (applyParams C dst src) key
      = if C.param dst key = [] then firstValue (C.params src) key else C.param dst key := by
  rw [param_eq_solid hC, applyParams_params hC, solid_fill, firstValue_eq, param_eq_solid hC]
  cases hsolid : solid List.isEmpty (C.params dst) key with
  | none => rfl
  | some value =>
      have hvalue : value ≠ [] := by
        obtain ⟨-, hblank⟩ := Option.filter_eq_some_iff.mp hsolid
        simpa using hblank
      rw [Option.some_or, Option.getD_some, if_neg hvalue]

/-- **`apply_params` merges defaults, and a second time changes nothing.** -/
theorem applyParams_defaults (hC : C.Ordered) (dst src : Url) :
    Defaulted C dst src (applyParams C dst src)
      ∧ C.params (applyParams C (applyParams C dst src) src)
        = C.params (applyParams C dst src) := by
  refine ⟨⟨?_, ?_, ?_, ?_, nodup_newKeys _ _⟩, ?_⟩
  · intro key hkey
    rw [applyParams_param hC, if_neg hkey]
  · intro key hkey
    rw [applyParams_param hC, if_pos hkey]
  · intro i key value hentry
    rw [applyParams_params hC]
    obtain ⟨value', hvalue', hor⟩ := getElem?_fill List.isEmpty hentry (C.params src)
    exact ⟨value', hvalue', hor.imp_right fun h => ⟨List.isEmpty_iff.mp h.1, h.2⟩⟩
  · rw [applyParams_params hC, keys_fill]
  · rw [applyParams_params hC, applyParams_params hC]
    refine fill_fill List.isEmpty (fun value value' h h' => ?_) _ _
    rw [List.isEmpty_iff.mp h, List.isEmpty_iff.mp h']

/-! ## A URL to try it on -/

/-- `key=value` -/
def parseParam (text : Bytes) : Bytes × Bytes :=
  (text.takeWhile (· ≠ 61), (text.dropWhile (· ≠ 61)).drop 1)

/-- Behind `"http://"`, a path and behind a `'?'` parameters with `'&'` between
them. -/
def queryUrl : UrlClass PlainUrl where
  ofString text :=
    let rest := text.drop 7
    ⟨rest.takeWhile (· ≠ 63),
      ((((rest.dropWhile (· ≠ 63)).drop 1).splitOn 38).filter (· ≠ [])).map parseParam⟩
  isValid _ := true
  path := PlainUrl.path
  setPath url path := { url with path }
  params := PlainUrl.params
  param url key := (url.params.lookup key).getD []
  setParam url key value := { url with params := put url.params key value }

theorem queryUrl_ordered : queryUrl.Ordered :=
  ⟨fun _ _ => rfl, fun _ _ _ => rfl, fun _ _ _ => rfl, fun _ _ => rfl, fun _ _ => rfl⟩

/-- The path holds a repeated key and one that is there already. -/
theorem decodeUrl_overwrites_query :
    ∃ u, decodeUrl hexFramework queryUrl ⟨ascii "/movie?a=1&b=2&a=3", [(ascii "b", ascii "0")]⟩
        .success .empty = some u ∧ u.ok = true
      ∧ Overwritten queryUrl ⟨ascii "/movie?a=1&b=2&a=3", [(ascii "b", ascii "0")]⟩
        (queryUrl.ofString (ascii "http:///movie?a=1&b=2&a=3")) u.url :=
  decodeUrl_overwrites queryUrl_ordered rfl (by decide) (by decide +kernel) (by decide +kernel)

/-- A key that is there twice, the first time without a value. -/
theorem applyParams_defaults_query :
    Defaulted queryUrl ⟨[], [(ascii "a", []), (ascii "a", ascii "0")]⟩
        ⟨[], [(ascii "a", []), (ascii "b", []), (ascii "a", ascii "1")]⟩
        (applyParams queryUrl ⟨[], [(ascii "a", []), (ascii "a", ascii "0")]⟩
          ⟨[], [(ascii "a", []), (ascii "b", []), (ascii "a", ascii "1")]⟩) :=
  (applyParams_defaults queryUrl_ordered _ _).1

end JustCommon
