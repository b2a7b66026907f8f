import JustCommon.Simulation
import JustCommon.UrlConfig
import JustCommon.UrlParams

/-!
# From a URL to the configuration

A URL that is decoded, filled with the defaults of others and then read by
`apply_config`, while others use the blob manager. `param` reads the first
parameter of a key, `apply_config` is left with the last one, so the two
agree only on a key that is not repeated. No call on a URL repeats a key or
changes a parameter behind another one of its key (`Grown`), so what a run
can do to an option depends on the URL it started with.
-/

namespace JustCommon

open KeyValues

variable {Url Conf : Type} {F : Framework} {C : UrlClass Url} {K : ConfigClass Conf}

/-- A call on the URL, or one on the blob manager by somebody else. -/
inductive UrlCall (Url : Type) where
  | decodeUrl (ec : ErrorCode)
  | decodeParam (key : Bytes) (ec : ErrorCode)
  | applyParams (src : Url)
  | blobs (op : BlobOp)

/-- The URL and the manager, from any of them on. -/
def calling (F : Framework) (C : UrlClass Url) : Lts (Url × BlobStore) (UrlCall Url) where
  init _ := True
  step s
    | .decodeUrl ec => (decodeUrl F C s.1 ec s.2).map fun u => (u.url, u.blobs)
    | .decodeParam key ec =>
        some ((decodeParam F C s.1 key ec s.2).url, (decodeParam F C s.1 key ec s.2).blobs)
    | .applyParams src => some (applyParams C s.1 src, s.2)
    | .blobs op => some (s.1, (s.2.exec op).2)

/-! ## What a call does to the parameters -/

theorem decodeUrl_grown (hC : C.Ordered) {url : Url} {ec : ErrorCode} {blobs : BlobStore}
    {u : UrlOutcome Url} (h : decodeUrl F C url ec blobs = some u) :
    Grown (C.params url) (C.params u.url) := by
  unfold decodeUrl at h
  split at h
  · obtain rfl := Option.some.inj h
    exact .refl _
  · split at h
    · cases h
    · obtain rfl := Option.some.inj h
      dsimp only
      split
      · rw [← setParams, setParams_params hC, hC.setPath_params]
        exact .merge rfl _ _
      · exact .refl _

theorem decodeParam_grown (hC : C.Ordered) (url : Url) (key : Bytes) (ec : ErrorCode)
    (blobs : BlobStore) :
    Grown (C.params url) (C.params (decodeParam F C url key ec blobs).url) := by
  unfold decodeParam
  dsimp only
  split
  · rw [hC.setParam]
    exact .put _ _ _
  · exact .refl _

theorem applyParams_grown (hC : C.Ordered) (dst src : Url) :
    Grown (C.params dst) (C.params (applyParams C dst src)) := by
  rw [applyParams_params hC]
  exact .merge rfl _ _

theorem step_grown (hC : C.Ordered) {s t : Url × BlobStore} {a : UrlCall Url}
    (h : (calling F C).step s a = some t) : Grown (C.params s.1) (C.params t.1) := by
  cases a with
  | decodeUrl ec =>
      obtain ⟨u, hu, rfl⟩ := Option.map_eq_some_iff.mp h
      exact decodeUrl_grown hC hu
  | decodeParam key ec =>
      obtain rfl := Option.some.inj h
      exact decodeParam_grown hC s.1 key ec s.2
  | applyParams src =>
      obtain rfl := Option.some.inj h
      exact applyParams_grown hC s.1 src
  | blobs op =>
      obtain rfl := Option.some.inj h
      exact .refl _

theorem run_grown (hC : C.Ordered) {s t : Url × BlobStore} {l : List (UrlCall Url)}
    (h : (calling F C).run s l = some t) : Grown (C.params s.1) (C.params t.1) :=
  Lts.run_invariant (I := fun t => Grown (C.params s.1) (C.params t.1))
    (fun _ _ _ hs hst => hs.trans (step_grown hC hst)) h (.refl _)

/-! ## What the configuration gets -/

/-- The option a key is for gets what `param` reads, if the key is not repeated. -/
theorem assigned_of_once (hC : C.Ordered) {url : Url} {pre sec name : Bytes}
    (hsec : sec ≠ []) (hname : dot ∉ name)
    (honce : (keys (C.params url)).count (pre ++ sec ++ dot :: name) ≤ 1) :
    assigned (C.params url) pre sec name
      = if pre ++ sec ++ dot :: name ∈ keys (C.params url)
        then some (C.param url (pre ++ sec ++ dot :: name)) else none := by
  rw [assigned, if_pos ⟨hsec, hname⟩, lookup_reverse_of_once honce]
  by_cases hmem : pre ++ sec ++ dot :: name ∈ keys (C.params url)
  · rw [if_pos hmem, hC.param]
    cases hvalue : (C.params url).lookup (pre ++ sec ++ dot :: name) with
    | none => exact absurd hmem (lookup_eq_none.mp hvalue)
    | some value => rfl
  · rw [if_neg hmem, lookup_eq_none.mpr hmem]

/-- **The configuration of a URL that was worked on.** After any calls of
`decode_url`, `decode_param` and `apply_params` on a URL, whatever becomes of
the blobs meanwhile, `apply_config` succeeds. It gives an option the value that
`param` reads, or leaves it if there is no parameter for it, provided the URL
did not have the key twice to start with; otherwise the option gets the last
value the URL started with, which no call can have changed. -/
theorem options_of_worked_url (hC : C.Ordered) (hK : K.Exact) {url url' : Url}
    {blobs blobs' : BlobStore} {l : List (UrlCall Url)}
    (h : (calling F C).run (url, blobs) l = some (url', blobs')) (config : Conf)
    (pre : Bytes) :
    ∃ config', applyConfig K C config url' pre = some config'
      ∧ ∀ sec name, sec ≠ [] → dot ∉ name →
        ((keys (C.params url)).count (pre ++ sec ++ dot :: name) ≤ 1 →
          K.get config' sec name
            = if pre ++ sec ++ dot :: name ∈ keys (C.params url')
              then some (C.param url' (pre ++ sec ++ dot :: name))
              else K.get config sec name)
        ∧ ∀ before value after,
          C.params url = before ++ (pre ++ sec ++ dot :: name, value) :: after →
          pre ++ sec ++ dot :: name ∈ keys before →
          pre ++ sec ++ dot :: name ∉ keys after →
          K.get config' sec name = some value := by
  have hgrown : Grown (C.params url) (C.params url') := run_grown hC h
  obtain ⟨config', hrun, hget⟩ := foldlM_applyOption hK pre (C.params url') config
  refine ⟨config', hrun, fun sec name hsec hname => ⟨fun honce => ?_, ?_⟩⟩
  · rw [hget, assigned_of_once hC hsec hname (hgrown.once honce)]
    split
    · rfl
    · rfl
  · intro before value after hsplit hbefore hafter
    have htwice : 2 ≤ (keys (C.params url)).count (pre ++ sec ++ dot :: name) := by
      have hpos := List.count_pos_iff.mpr hbefore
      rw [hsplit, keys_append, keys_cons, List.count_append, List.count_cons_self]
      omega
    rw [hget, assigned, if_pos ⟨hsec, hname⟩, hgrown.last htwice,
      lookup_reverse_of_last hafter before value hsplit, Option.some_or]

/-- The port is there twice and in the path once more, the host comes from the
defaults. -/
def hostUrl : PlainUrl :=
  ⟨ascii "/movie?app.net.port=80", [(ascii "app.net.port", ascii "1"),
    (ascii "app.net.port", ascii "2")]⟩

def hostCalls : List (UrlCall PlainUrl) :=
  [.decodeUrl .success, .applyParams ⟨[], [(ascii "app.net.host", ascii "box")]⟩]

theorem options_of_worked_url_host :
    ∃ url' blobs' config',
      (calling hexFramework queryUrl).run (hostUrl, .empty) hostCalls = some (url', blobs')
      ∧ applyConfig optionMap queryUrl (fun _ _ => none) url' (ascii "app.") = some config'
      ∧ queryUrl.param url' (ascii "app.net.port") = ascii "80"
      ∧ config' (ascii "net") (ascii "port") = some (ascii "2")
      ∧ config' (ascii "net") (ascii "host") = some (ascii "box") := by
  have hsome : (((calling hexFramework queryUrl).run (hostUrl, .empty) hostCalls).map
      fun s => s.1.params) = some [(ascii "app.net.port", ascii "80"),
        (ascii "app.net.port", ascii "2"), (ascii "app.net.host", ascii "box")] := by
    decide +kernel
  obtain ⟨⟨url', blobs'⟩, hrun, hparams⟩ := Option.map_eq_some_iff.mp hsome
  obtain ⟨config', hconfig, hoptions⟩ :=
    options_of_worked_url queryUrl_ordered optionMap_exact hrun (fun _ _ => none) (ascii "app.")
  have hvalue : ∀ key, queryUrl.param url' key = (url'.params.lookup key).getD [] := fun _ => rfl
  refine ⟨url', blobs', config', hrun, hconfig, ?_, ?_, ?_⟩
  · rw [hvalue, hparams]
    rfl
  · exact (hoptions (ascii "net") (ascii "port") (by decide) (by decide)).2
      [(ascii "app.net.port", ascii "1")] (ascii "2") [] rfl (by decide) List.not_mem_nil
  · have hhost := (hoptions (ascii "net") (ascii "host") (by decide) (by decide)).1 (by decide)
    rw [if_pos (by rw [show queryUrl.params url' = url'.params from rfl, hparams]; decide),
      hvalue, hparams] at hhost
    exact hhost

end JustCommon
