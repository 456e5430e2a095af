import ControlPlane.Learning.Records
import ControlPlane.Deployment.Reread

/-! # Context keys

The features of a request are texts without white space around them, so that normalizing them changes
nothing (`normalize_plain`) and the key of a request is the text of its selected features
(`fieldsKey_plain`). Two keys are equal if and only if the selected features are (`contextText_inj`). -/

namespace ControlPlane.Deployment.ContextKeys

open ControlPlane.Lib.Value ControlPlane.Lib.Print ControlPlane.Lib.RoundTrip ControlPlane.Lib.Text
open ControlPlane.Lib.Dumps ControlPlane.Lib.Dynamic ControlPlane.Environment
open ControlPlane.Learning.Features ControlPlane.Learning.Decision ControlPlane.Learning.Records
open ControlPlane.Deployment.Reread

/-! ### Plain features -/

/-- A text without white space around it that is not empty. -/
def PlainText (s : String) : Prop := strip s = s ∧ s ≠ ""

instance (s : String) : Decidable (PlainText s) := by
  unfold PlainText
  infer_instance

/-- The texts of all features. -/
def texts (f : RetrievalContextFeatures) : List String :=
  [f.lane, f.risk, f.intent, f.queryLengthBucket, f.changedFilesBucket, f.workspaceRootsBucket]

/-- **The features of a request are plain.** -/
theorem plain_features (r : Request) (n : ℤ) : ∀ s ∈ texts (r.features n), PlainText s := by
  have hlane : PlainText r.decision.lane.value := by
    cases r.decision.lane <;> decide
  have hrisk : PlainText r.decision.risk.value := by
    cases r.decision.risk <;> decide
  have hintent : PlainText r.intent.value := by
    cases r.intent <;> decide
  have hquery : PlainText (queryLengthBucket r.query) := by
    unfold queryLengthBucket
    simp only
    split_ifs <;> decide
  have hcount : PlainText (countBucket r.changedFilesCount) := by
    unfold countBucket
    simp only
    split_ifs <;> decide
  have hroots : PlainText (workspaceBucket n) := by
    unfold workspaceBucket
    simp only
    split_ifs <;> decide
  simp only [texts, List.forall_mem_cons]
  exact ⟨hlane, hrisk, hintent, hquery, hcount, hroots, by simp⟩

variable {F : Type} (E : Env F)

/-- The entry of a feature is one of the texts. -/
theorem getKey_features (f : RetrievalContextFeatures) {field : String} (h : field ∈ featureFields) :
    ∃ s ∈ texts f, getKey (f.toDict : Dict F) field = .str s := by
  simp only [featureFields, List.mem_cons, List.not_mem_nil, or_false] at h
  rcases h with rfl | rfl | rfl | rfl | rfl | rfl
  · exact ⟨f.lane, by simp [texts], rfl⟩
  · exact ⟨f.risk, by simp [texts], rfl⟩
  · exact ⟨f.intent, by simp [texts], rfl⟩
  · exact ⟨f.queryLengthBucket, by simp [texts], rfl⟩
  · exact ⟨f.changedFilesBucket, by simp [texts], rfl⟩
  · exact ⟨f.workspaceRootsBucket, by simp [texts], rfl⟩

/-- An object with the features of a request. -/
def HasFeatures (d : Dict F) (f : RetrievalContextFeatures) : Prop :=
  ∀ field ∈ featureFields, getKey d field = getKey f.toDict field

theorem hasFeatures_self (f : RetrievalContextFeatures) : HasFeatures (f.toDict : Dict F) f :=
  fun _ _ => rfl

theorem hasFeatures_sortDict (f : RetrievalContextFeatures) :
    HasFeatures (sortDict f.toDict : Dict F) f := by
  intro field hfield
  have hw := wellFormed_features (F := F) f
  obtain ⟨s, -, hs⟩ := getKey_features (F := F) f hfield
  rw [getKey_sortDict ((wellFormed_obj _).mp hw).1, hs, sortKeys_str]

theorem normalizeFields_plain {d : Dict F} : ∀ {fields : List String},
    (∀ field ∈ fields, ∃ s, getKey d field = .str s ∧ PlainText s) →
    normalizeFields E d fields = .ok (some (fields.map fun field => (field, getKey d field)))
  | [], _ => rfl
  | field :: fields, h => by
    obtain ⟨s, hs, hstrip, hne⟩ := h field (List.mem_cons_self ..)
    have ih := normalizeFields_plain fun f hf => h f (List.mem_cons_of_mem _ hf)
    rw [normalizeFields, hs]
    simp only [Env.str, pyStr_str, bind, Except.bind, hstrip, if_neg hne, ih]
    simp [pure, Except.pure, hs]

/-- **Normalizing plain features changes nothing.** -/
theorem normalize_plain {d : Dict F} {f : RetrievalContextFeatures} (hd : HasFeatures d f)
    (hf : ∀ s ∈ texts f, PlainText s) :
    normalizeContextFeatures E (.obj d) = .ok (some f.toDict) := by
  have hs : ∀ field ∈ featureFields, ∃ s, getKey d field = .str s ∧ PlainText s := by
    intro field hfield
    obtain ⟨s, hs, he⟩ := getKey_features (F := F) f hfield
    exact ⟨s, (hd field hfield).trans he, hf s hs⟩
  have h := normalizeFields_plain E hs
  rw [normalizeContextFeatures, h]
  have hm : (featureFields.map fun field => (field, getKey d field)) =
      featureFields.map fun field => (field, getKey (f.toDict : Dict F) field) :=
    List.map_congr_left fun field hfield => by rw [hd field hfield]
  rw [hm]
  rfl

/-! ### The text of a key -/

/-- `context_key(features, tuple(str(field) for field in fields_raw))`. -/
def fieldsKey (features : Json F) (raw : List (Json F)) : Py String := do
  contextKey E features ((← raw.mapM E.str).map .str)

/-- The key of features under validated fields. -/
def contextText (f : RetrievalContextFeatures) (fields : List String) : String :=
  String.ofList (print E.T.toFloatText (compact true) 0 (sortKeys (contextPayload f.toDict fields)))

theorem validate_texts {raw : List (Json F)} {names : List String} (h : raw.mapM E.str = .ok names) :
    validateContextFields E (names.map .str) = validateContextFields E raw := by
  have hn : (names.map Json.str).mapM E.str = .ok names :=
    (mapM_str_eq_ok E).mpr ⟨List.forall_mem_map.mpr fun _ _ => rfl, by simp [Function.comp_def, strText]⟩
  unfold validateContextFields
  rw [h, hn]

/-- The entries of a payload. -/
theorem mem_payload {f : RetrievalContextFeatures} {fields : List String} {p : String × Json F}
    (h : p ∈ ofPairs (fields.map fun field => (field, getKey f.toDict field))) :
    p.1 ∈ fields ∧ p.2 = getKey f.toDict p.1 := by
  obtain ⟨field, hf, rfl⟩ := List.mem_map.mp (mem_ofPairs h)
  exact ⟨hf, rfl⟩

theorem fields_of_validate {raw : List (Json F)} {fields : List String}
    (h : validateContextFields E raw = .ok fields) :
    fields.Nodup ∧ ∀ field, field ∈ fields ↔ field ∈ raw.map (stripText E) := by
  obtain ⟨-, -, -, rfl⟩ := (validateContextFields_eq_ok E).mp h
  exact ⟨nodup_eraseDups _ _ le_rfl, fun _ => List.mem_eraseDups⟩

theorem known_of_validate {raw : List (Json F)} {fields : List String}
    (h : validateContextFields E raw = .ok fields) : ∀ field ∈ fields, field ∈ featureFields := by
  intro field hf
  obtain ⟨x, hx, rfl⟩ := List.mem_map.mp (((fields_of_validate E h).2 field).mp hf)
  exact ((validateContextFields_eq_ok E).mp h).2.2.1 x hx

theorem contextKey_plain {d : Dict F} {f : RetrievalContextFeatures} (hd : HasFeatures d f)
    (hf : ∀ s ∈ texts f, PlainText s) {raw : List (Json F)} {fields : List String}
    (hv : validateContextFields E raw = .ok fields) :
    contextKey E (.obj d) raw = .ok (contextText E f fields) := by
  have hp : printable E.T.toFloatText true (contextPayload (f.toDict : Dict F) fields) = true := by
    rw [contextPayload, printable_obj]
    intro p hp
    obtain ⟨hmem, he⟩ := mem_payload hp
    obtain ⟨s, -, hs⟩ := getKey_features (F := F) f (known_of_validate E hv _ hmem)
    rw [he, hs]
    rfl
  unfold contextKey
  rw [hv]
  simp only [bind, Except.bind, normalize_plain E hd hf, jsonDumps, dumps, printable_sortKeys, hp,
    if_true]
  rfl

/-- **The key of plain features.** -/
theorem fieldsKey_plain {d : Dict F} {f : RetrievalContextFeatures} (hd : HasFeatures d f)
    (hf : ∀ s ∈ texts f, PlainText s) {raw : List (Json F)} {fields : List String}
    (hv : validateContextFields E raw = .ok fields) :
    fieldsKey E (.obj d) raw = .ok (contextText E f fields) := by
  have hm : raw.mapM E.str = .ok (raw.map (strText E.T E.isPrintable)) :=
    (mapM_str_eq_ok E).mpr ⟨((validateContextFields_eq_ok E).mp hv).1, rfl⟩
  rw [fieldsKey, hm]
  exact contextKey_plain E hd hf ((validate_texts E hm).trans hv)

theorem payload_eq_iff {f f' : RetrievalContextFeatures} {fields : List String} (hn : fields.Nodup)
    (hknown : ∀ field ∈ fields, field ∈ featureFields) :
    sortKeys (contextPayload (f.toDict : Dict F) fields) = sortKeys (contextPayload f'.toDict fields) ↔
      ∀ field ∈ fields, getKey (f.toDict : Dict F) field = getKey f'.toDict field := by
  have hk : ∀ f : RetrievalContextFeatures,
      (keys (fields.map fun field => (field, getKey (f.toDict : Dict F) field))).Nodup := by
    intro f
    rw [keys, List.map_map]
    exact (List.map_id fields).symm ▸ hn
  have hget : ∀ f : RetrievalContextFeatures, ∀ field ∈ fields,
      getKey (sortDict (ofPairs (fields.map fun field => (field, getKey (f.toDict : Dict F) field))))
        field = getKey f.toDict field := by
    intro f field hfield
    have hl := lookup_of_mem (hk f) (List.mem_map_of_mem hfield)
    obtain ⟨s, -, hs⟩ := getKey_features (F := F) f (hknown field hfield)
    rw [ofPairs_eq (hk f), getKey_sortDict (hk f), getKey, hl, Option.getD_some, hs, sortKeys_str]
  constructor
  · intro h field hfield
    rw [contextPayload, contextPayload, sortKeys_obj', sortKeys_obj', Json.obj.injEq] at h
    rw [← hget f field hfield, ← hget f' field hfield, h]
  · intro h
    have hm : (fields.map fun field => (field, getKey (f.toDict : Dict F) field)) =
        fields.map fun field => (field, getKey f'.toDict field) :=
      List.map_congr_left fun field hfield => by rw [h field hfield]
    rw [contextPayload, contextPayload, hm]

/-- **Two keys are equal if and only if the selected features are.** -/
theorem contextText_inj {f f' : RetrievalContextFeatures} {raw : List (Json F)}
    {fields : List String} (hv : validateContextFields E raw = .ok fields) :
    contextText E f fields = contextText E f' fields ↔
      ∀ field ∈ fields, getKey (f.toDict : Dict F) field = getKey f'.toDict field := by
  have hw : ∀ f : RetrievalContextFeatures,
      wellFormed (sortKeys (contextPayload (f.toDict : Dict F) fields)) = true := by
    intro f
    rw [wellFormed_sortKeys, contextPayload, wellFormed_obj]
    refine ⟨nodup_keys_ofPairs _, fun p hp => ?_⟩
    obtain ⟨hmem, he⟩ := mem_payload hp
    obtain ⟨s, -, hs⟩ := getKey_features (F := F) f (known_of_validate E hv _ hmem)
    rw [he, hs]
    rfl
  rw [← payload_eq_iff (fields_of_validate E hv).1 (known_of_validate E hv)]
  constructor
  · intro h
    exact print_injective (hw f) (hw f') (String.ofList_inj.mp h)
  · intro h
    rw [contextText, contextText, h]

end ControlPlane.Deployment.ContextKeys
