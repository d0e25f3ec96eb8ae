import Cosmonaut.Model.Job

/-!
# The row as a dictionary

How `CosmonautJob` splits the model's fields into columns and merges them again. A dictionary gives
each of its keys a value; the order of the keys does not matter.

* `rowOf`, `columnsOf`, `loadRow`: `_row`, `_columns` and `load`, by the names of the fields.
* `encoding_keeps_fields`: what a load gives after a save, after a write of some fields, and after a
  save of what was loaded.
* `missing_keys_filled_in`: a model that is not loaded as it was saved.
-/

namespace Cosmonaut

/-! ## Fields and columns -/

/-- A value of a field as JSON. File names, checksums and task ids are texts. -/
inductive FieldValue
  | value (v : ConfigValue)
  | fileName (f : FileName)
  | sha256 (h : Sha256)
  | taskId (id : TaskId)
  | list (l : List FieldValue)
  | dict (d : String → Option FieldValue)

/-- A dictionary by its keys. -/
abbrev Dict := String → Option FieldValue

/-- `a | b`: the entries of both, and those of `b` where both have one. -/
def Dict.merge (a b : Dict) : Dict := fun key => (b key).or (a key)

def FieldValue.text (s : String) : FieldValue := .value (.text s)

def FieldValue.null : FieldValue := .value .null

/-- `RUN_OWNED_COLUMNS` -/
def runOwnedColumns : List String := ["status", "submitted", "heartbeat_at", "run_id"]

/-- The fields of `JobModel` that are none of `FullPipelineConfig`, with their defaults. -/
def jobFields : List (String × FieldValue) := [
  ("email", .text ""),
  ("membership_upload", .dict fun
    | "file_name" => some (.text "No file uploaded")
    | "len" => some (.value (.int 0))
    | "epsg" => some (.value (.int 25832))
    | "center" => some (.list [.value (.num (517 / 10)), .value (.num (112 / 10))])
    | "zoom" => some (.value (.int 10))
    | "street_processing" => some (.text "PENDING")
    | "download_sha256" => some .null
    | _ => none),
  ("predictor_upload", .dict fun
    | "file_name" => some (.text "No file uploaded")
    | "len" => some (.value (.int 0))
    | _ => none),
  ("epsg", .value (.int 25832)),
  ("submitted", .value (.flag false)),
  ("notified_end", .value (.flag false)),
  ("stage", .value (.int 0)),
  ("status", .text "PENDING"),
  ("version", .text "0.1.5"),
  ("celery_task_id", .null),
  ("start_date", .null),
  ("street_edits", .null)]

/-- The fields of `JobModel` but those of `FullPipelineConfig`. `BaseJobConfig` has `job_id`. -/
def jobNames : List String := "job_id" :: jobFields.map Prod.fst

/-- The columns of the table but the one of the config. -/
def columnNames : List String := jobNames ++ ["heartbeat_at", "run_id"]

section

variable [External]

/-- `FullPipelineConfig.model_fields` -/
def configNames : List String := External.configFields.map Prod.fst

def fieldNames : List String := jobNames ++ configNames

/-- The default of a field but `job_id`, which every row has. -/
def fieldDefault (name : String) : FieldValue :=
  ((jobFields.lookup name).or ((External.configFields.lookup name).map .value)).getD .null

end

/-- What pydantic makes of a value for a field, if it accepts it. -/
class Pydantic where
  parse : String → FieldValue → Option FieldValue

/-- A `JobModel` by its fields. Its membership upload is some dictionary. -/
structure ModelFields where
  membershipUpload : Dict
  others : String → FieldValue

def ModelFields.get (m : ModelFields) (name : String) : FieldValue :=
  if name = "membership_upload" then .dict m.membershipUpload else m.others name

/-! ## `_row` and `_columns` -/

section

variable [External]

/-- `model_dump(mode="json")` -/
def ModelFields.dump (m : ModelFields) : Dict := fun name =>
  if name ∈ fieldNames then some (m.get name) else none

/-- `_row` -/
def rowOf (m : ModelFields) : Dict :=
  let data : Dict := fun column => if column ∈ runOwnedColumns then none else m.dump column
  let configData : Dict := fun name => if name ∈ configNames then data name else none
  let data : Dict := fun column => if column ∈ configNames then none else data column
  Function.update data "config" (some (.dict configData))

/-- The column a field lands in. -/
def columnOf (field : String) : String := if field ∈ configNames then "config" else field

/-- `_columns`: none is the error of a field without a column. -/
def columnsOf (m : ModelFields) (fields : List String) : Option Dict :=
  fields.foldlM
    (fun columns field => (rowOf m (columnOf field)).map fun v =>
      Function.update columns (columnOf field) (some v))
    fun _ => none

end

/-! ## `load` -/

/-- `job_data.pop("config", \x7b\x7d)`: none is the error of a config that is no dictionary. -/
def configData (row : Dict) : Option Dict :=
  match row "config" with
  | none | some (.value .null) => some fun _ => none
  | some (.dict d) => some d
  | some _ => none

/-- The row without its config, and then the config merged into it. -/
def jobData (row config : Dict) : Dict := Dict.merge (Function.update row "config" none) config

/-- A key that is missing is filled in. -/
def Dict.setDefault (d : Dict) (key : String) (v : FieldValue) : Dict :=
  Function.update d key (some ((d key).getD v))

/-- The keys that older rows lack are filled in. -/
def backfill (d : Dict) : Dict :=
  (d.setDefault "street_processing" (.text "PENDING")).setDefault "download_sha256" .null

/-- The model with these keys filled in. -/
def ModelFields.backfilled (m : ModelFields) : ModelFields :=
  { m with membershipUpload := backfill m.membershipUpload }

section

variable [External] [Pydantic]

/-- The value that a field gets of some data, or of its default. -/
def validated (data : Dict) (name : String) : Option FieldValue :=
  match data name with
  | some v => Pydantic.parse name v
  | none => some (fieldDefault name)

/-- The value that the membership upload gets: any dictionary is accepted. -/
def validatedUpload (data : Dict) : Option Dict :=
  match (data "membership_upload").getD (fieldDefault "membership_upload") with
  | .dict d => some d
  | _ => none

/-- `JobModel(**job_data)` -/
def jobModelOf (data : Dict) : Option ModelFields :=
  match validatedUpload data with
  | none => none
  | some d =>
    if ∀ name ∈ fieldNames, name = "membership_upload" ∨ (validated data name).isSome then
      some ⟨d, fun name => (validated data name).getD .null⟩
    else none

/-- `load`, of the row as `load_row` returns it. -/
def loadRow (row : Dict) : Option ModelFields :=
  (configData row).bind fun config => (jobModelOf (jobData row config)).map ModelFields.backfilled

end

/-! ## The writers -/

section

variable [External]

/-- `save`: the whole row is written. -/
def saved (row : Dict) (m : ModelFields) : Dict := row.merge (rowOf m)

/-- `update_columns`: the columns of some fields are written. -/
def updated (row : Dict) (m : ModelFields) (fields : List String) : Option Dict :=
  (columnsOf m fields).map row.merge

/-- The row is PENDING. -/
def Dict.isPending (row : Dict) : Bool :=
  match row "status" with
  | some (.value (.text status)) => status = "PENDING"
  | _ => false

/-- `update_input`: the same while the row is PENDING, and whether it was. -/
def updatedInput (row : Dict) (m : ModelFields) (fields : List String) : Option (Dict × Bool) :=
  (columnsOf m fields).map fun columns =>
    if row.isPending then (row.merge columns, true) else (row, false)

end

/-! ## What is assumed -/

section

variable [External] [Pydantic]

/-- What pydantic accepts it accepts again as it has read it, the defaults included. -/
structure Pydantic.Documented : Prop where
  parse_parse : ∀ name v v', Pydantic.parse name v = some v' → Pydantic.parse name v' = some v'
  parse_default : ∀ name ∈ fieldNames, name ≠ "job_id" →
    Pydantic.parse name (fieldDefault name) = some (fieldDefault name)

/-- The fields of the config are none of the columns. -/
def ConfigNamesApart : Prop := ∀ name ∈ configNames, name ∉ columnNames ∧ name ≠ "config"

/-- The fields hold what pydantic accepts for them. -/
def ModelFields.Valid (m : ModelFields) : Prop :=
  ∀ name ∈ fieldNames, name ≠ "membership_upload" →
  Pydantic.parse name (m.get name) = some (m.get name)

end

/-- A row of the table: it has its key, and the config in it has no key that is a column's name. -/
structure Dict.IsRow (row : Dict) : Prop where
  job_id : row "job_id" ≠ none
  config_apart : ∀ d, row "config" = some (.dict d) → ∀ column ∈ columnNames, d column = none

section

variable [External] [Pydantic]

/-- The row is loaded, and its fields have these values. -/
def LoadsAs (row : Dict) (get : String → FieldValue) : Prop :=
  ∃ m, loadRow row = some m ∧ ∀ name ∈ fieldNames, m.get name = get name

end

/-! ## What is in a row -/

section

variable {m : ModelFields} {name : String}

theorem mem_columnNames_of_runOwned (h : name ∈ runOwnedColumns) : name ∈ columnNames := by
  revert name
  decide

theorem mem_columnNames (h : name ∈ jobNames) : name ∈ columnNames :=
  List.mem_append_left _ h

theorem ne_config (h : name ∈ columnNames) : name ≠ "config" := by
  rintro rfl
  revert h
  decide

variable [External]

theorem not_mem_configNames (hapart : ConfigNamesApart) (h : name ∈ columnNames) :
    name ∉ configNames :=
  fun hc => (hapart name hc).1 h

theorem not_runOwned_of_config (hapart : ConfigNamesApart) (h : name ∈ configNames) :
    name ∉ runOwnedColumns :=
  fun hr => (hapart name h).1 (mem_columnNames_of_runOwned hr)

theorem mem_fieldNames_upload : "membership_upload" ∈ fieldNames :=
  List.mem_append_left _ (by decide)

/-- A column of a field of the job. -/
theorem rowOf_jobField (hapart : ConfigNamesApart) (h : name ∈ jobNames) :
    rowOf m name = if name ∈ runOwnedColumns then none else some (m.get name) := by
  have hcolumn := mem_columnNames h
  have hfield : name ∈ fieldNames := List.mem_append_left _ h
  simp only [rowOf, Function.update_of_ne (ne_config hcolumn),
    if_neg (not_mem_configNames hapart hcolumn), ModelFields.dump, if_pos hfield]

/-- A field of the config has no column of its own. -/
theorem rowOf_configField (hapart : ConfigNamesApart) (h : name ∈ configNames) :
    rowOf m name = none := by
  rw [rowOf, Function.update_of_ne (hapart name h).2, if_pos h]

/-- The column of the config has the fields of the config. -/
theorem rowOf_config : rowOf m "config" = some (.dict fun name =>
    if name ∈ configNames then if name ∈ runOwnedColumns then none else m.dump name else none) := by
  rw [rowOf, Function.update_self]

/-- Every field that is not run-owned has a column with its value. -/
theorem rowOf_columnOf (hapart : ConfigNamesApart) (h : name ∈ fieldNames)
    (howned : name ∉ runOwnedColumns) : ∃ v, rowOf m (columnOf name) = some v := by
  rcases List.mem_append.1 h with hjob | hconfig
  · rw [columnOf, if_neg (not_mem_configNames hapart (mem_columnNames hjob)),
      rowOf_jobField hapart hjob, if_neg howned]
    exact ⟨_, rfl⟩
  · rw [columnOf, if_pos hconfig, rowOf_config]
    exact ⟨_, rfl⟩

end

/-! ## What is loaded -/

section

variable [External] [Pydantic] {m old : ModelFields} {row columns config : Dict} {name : String}

/-- A load has validated the values of all fields. -/
theorem validated_of_loadRow (hold : loadRow row = some old) :
    ∃ config, configData row = some config ∧
      (∃ d, validatedUpload (jobData row config) = some d ∧ old.membershipUpload = backfill d) ∧
      ∀ name ∈ fieldNames, name ≠ "membership_upload" →
        validated (jobData row config) name = some (old.get name) := by
  obtain ⟨config, hconfig, hold⟩ := Option.bind_eq_some_iff.1 hold
  obtain ⟨m₀, hm₀, rfl⟩ := Option.map_eq_some_iff.1 hold
  unfold jobModelOf at hm₀
  split at hm₀
  · cases hm₀
  · rename_i d hd
    split at hm₀
    · rename_i hall
      obtain rfl := Option.some.inj hm₀
      refine ⟨config, hconfig, ⟨d, hd, rfl⟩, fun name hname hne => ?_⟩
      obtain ⟨v, hv⟩ := Option.isSome_iff_exists.1 ((hall name hname).resolve_left hne)
      rw [ModelFields.get, if_neg hne]
      change _ = some ((validated (jobData row config) name).getD .null)
      rw [hv]
      rfl
    · cases hm₀

/-- A row whose fields are all valid is loaded. -/
theorem loadsAs_of_validated {d : Dict} {get : String → FieldValue}
    (hconfig : configData row = some config) (hd : validatedUpload (jobData row config) = some d)
    (hupload : get "membership_upload" = .dict (backfill d))
    (hall : ∀ name ∈ fieldNames, name ≠ "membership_upload" →
      validated (jobData row config) name = some (get name)) : LoadsAs row get := by
  refine ⟨⟨backfill d, fun name => (validated (jobData row config) name).getD .null⟩, ?_, ?_⟩
  · have hvalid : ∀ name ∈ fieldNames, name = "membership_upload" ∨
        (validated (jobData row config) name).isSome := by
      intro name hname
      by_cases hne : name = "membership_upload"
      · exact .inl hne
      · rw [hall name hname hne]
        exact .inr rfl
    rw [loadRow, hconfig, Option.bind_some, jobModelOf, hd]
    dsimp only
    rw [if_pos hvalid]
    rfl
  · intro name hname
    by_cases hne : name = "membership_upload"
    · rw [hne, hupload]
      rfl
    · rw [ModelFields.get, if_neg hne]
      change (validated (jobData row config) name).getD .null = _
      rw [hall name hname hne]
      rfl

omit [External] [Pydantic] in
/-- The config of a row leaves the columns alone. -/
theorem config_column (hrow : row.IsRow) (hconfig : configData row = some config)
    (h : name ∈ columnNames) : config name = none := by
  unfold configData at hconfig
  split at hconfig
  · obtain rfl := Option.some.inj hconfig
    rfl
  · obtain rfl := Option.some.inj hconfig
    rfl
  · rename_i d hd
    obtain rfl := Option.some.inj hconfig
    exact hrow.config_apart d hd name h
  · cases hconfig

omit [External] [Pydantic] in
/-- What a config leaves alone is what the row has. -/
theorem jobData_column (h : name ∈ columnNames) (hconfig : config name = none) :
    jobData row config name = row name := by
  rw [jobData, Dict.merge, hconfig, Option.none_or, Function.update_of_ne (ne_config h)]

omit [Pydantic] in
/-- A column of a row in which some columns of a model were written: it has the value of the model
if it was written, and what the row had otherwise. -/
theorem merge_jobField (hapart : ConfigNamesApart)
    (hcolumns : ∀ c v, columns c = some v → rowOf m c = some v) (h : name ∈ jobNames) :
    row.merge columns name =
      if (columns (columnOf name)).isSome then some (m.get name) else row name := by
  rw [Dict.merge, columnOf, if_neg (not_mem_configNames hapart (mem_columnNames h))]
  cases hc : columns name with
  | none => rfl
  | some v =>
    have hv := hcolumns name v hc
    rw [rowOf_jobField hapart h] at hv
    split at hv
    · cases hv
    · exact hv.symm

variable (row) in
omit [Pydantic] in
/-- The data of a row in which the config of a model was written. -/
theorem jobData_config (hapart : ConfigNamesApart)
    (hcolumns : ∀ c v, columns c = some v → rowOf m c = some v) (hc : columns "config" ≠ none) :
    ∃ config', configData (row.merge columns) = some config' ∧ ∀ name ∈ fieldNames,
      jobData (row.merge columns) config' name =
        if (columns (columnOf name)).isSome then some (m.get name) else row name := by
  obtain ⟨v, hc⟩ := Option.ne_none_iff_exists'.1 hc
  have hv := hcolumns "config" v hc
  rw [rowOf_config] at hv
  obtain rfl := Option.some.inj hv
  refine ⟨_, by simp only [configData, Dict.merge, hc, Option.some_or]; rfl, fun name hname => ?_⟩
  rcases List.mem_append.1 hname with hjob | hconfig
  · have hcolumn := mem_columnNames hjob
    rw [jobData_column hcolumn (if_neg (not_mem_configNames hapart hcolumn))]
    exact merge_jobField hapart hcolumns hjob
  · rw [columnOf, if_pos hconfig, hc]
    simp only [jobData, Dict.merge, if_pos hconfig, if_neg (not_runOwned_of_config hapart hconfig),
      ModelFields.dump, if_pos hname, Option.some_or, Option.isSome_some]
    rfl

omit [Pydantic] in
/-- **The data of a row in which some columns of a model were written.** -/
theorem jobData_merge (hapart : ConfigNamesApart) (hrow : row.IsRow)
    (hcolumns : ∀ c v, columns c = some v → rowOf m c = some v)
    (hconfig : configData row = some config) :
    ∃ config', configData (row.merge columns) = some config' ∧ ∀ name ∈ fieldNames,
      jobData (row.merge columns) config' name =
        if (columns (columnOf name)).isSome then some (m.get name)
        else jobData row config name := by
  have hold : ∀ name ∈ jobNames, jobData row config name = row name := by
    intro name hjob
    exact jobData_column (mem_columnNames hjob) (config_column hrow hconfig (mem_columnNames hjob))
  cases hc : columns "config" with
  | none =>
    refine ⟨config, ?_, fun name hname => ?_⟩
    · rw [← hconfig]
      simp only [configData, Dict.merge, hc, Option.none_or]
    · rcases List.mem_append.1 hname with hjob | hfield
      · have hcolumn := mem_columnNames hjob
        rw [jobData_column hcolumn (config_column hrow hconfig hcolumn), hold name hjob]
        exact merge_jobField hapart hcolumns hjob
      · have hcolumn : columns name = none := by
          cases hname' : columns name with
          | none => rfl
          | some v =>
            have hv := hcolumns name v hname'
            rw [rowOf_configField hapart hfield] at hv
            cases hv
        rw [columnOf, if_pos hfield, hc]
        simp only [jobData, Dict.merge, Function.update_of_ne (hapart name hfield).2, hcolumn,
          Option.none_or]
        rfl
  | some v =>
    obtain ⟨config', hconfig', hdata⟩ := jobData_config row hapart hcolumns (by rw [hc]; simp)
    refine ⟨config', hconfig', fun name hname => ?_⟩
    rw [hdata name hname]
    rcases List.mem_append.1 hname with hjob | hfield
    · rw [hold name hjob]
    · rw [columnOf, if_pos hfield, hc]
      rfl

/-! ## After a write -/

/-- A field whose data is the model's, if its column was written, or some other. -/
theorem validated_written {data data' : Dict} {kept : FieldValue} (hm : m.Valid)
    (hname : name ∈ fieldNames) (hne : name ≠ "membership_upload")
    (hdata : data' name = if (columns (columnOf name)).isSome then some (m.get name) else data name)
    (hkept : ¬ (columns (columnOf name)).isSome → validated data name = some kept) :
    validated data' name =
      some (if (columns (columnOf name)).isSome then m.get name else kept) := by
  unfold validated
  rw [hdata]
  split_ifs with hc
  · exact hm name hname hne
  · exact hkept hc

/-- **A row in which some columns of a valid model were written is loaded** with the model's values
of these columns, and with the others as before. -/
theorem loadsAs_merge (hapart : ConfigNamesApart) (hrow : row.IsRow) (hm : m.Valid)
    (hold : loadRow row = some old) (hcolumns : ∀ c v, columns c = some v → rowOf m c = some v) :
    LoadsAs (row.merge columns) fun name =>
      if (columns (columnOf name)).isSome then m.backfilled.get name else old.get name := by
  obtain ⟨config, hconfig, ⟨d, hd, hupload⟩, hfields⟩ := validated_of_loadRow hold
  obtain ⟨config', hconfig', hdata⟩ := jobData_merge hapart hrow hcolumns hconfig
  have hd' : validatedUpload (jobData (row.merge columns) config') =
      some (if (columns (columnOf "membership_upload")).isSome then m.membershipUpload else d) := by
    unfold validatedUpload
    rw [hdata _ mem_fieldNames_upload]
    split_ifs with hc
    · rfl
    · exact hd
  refine loadsAs_of_validated hconfig' hd' ?_ fun name hname hne => ?_
  · split_ifs with hc
    · rfl
    · change FieldValue.dict old.membershipUpload = _
      rw [hupload]
  · rw [validated_written hm hname hne (hdata name hname) fun _ => hfields name hname hne]
    simp only [ModelFields.get, if_neg hne, ModelFields.backfilled]

omit [Pydantic] in
theorem rowOf_columnOf_isSome (hapart : ConfigNamesApart) (h : name ∈ fieldNames) :
    (rowOf m (columnOf name)).isSome ↔ name ∉ runOwnedColumns := by
  rcases List.mem_append.1 h with hjob | hconfig
  · rw [columnOf, if_neg (not_mem_configNames hapart (mem_columnNames hjob)),
      rowOf_jobField hapart hjob]
    split_ifs with howned
    · simp [howned]
    · simp [howned]
  · rw [columnOf, if_pos hconfig, rowOf_config]
    simp [not_runOwned_of_config hapart hconfig]

/-- **A row in which a valid model was saved is loaded** with the model's values of all fields but
the run-owned ones, which are those of the row. -/
theorem loadsAs_saved {kept : String → FieldValue} (hapart : ConfigNamesApart) (hm : m.Valid)
    (hkept : ∀ name ∈ runOwnedColumns, name ∈ fieldNames → validated row name = some (kept name)) :
    LoadsAs (saved row m) fun name =>
      if name ∈ runOwnedColumns then kept name else m.backfilled.get name := by
  have hcolumns : ∀ c v, rowOf m c = some v → rowOf m c = some v := fun _ _ h => h
  obtain ⟨config, hconfig, hdata⟩ := jobData_config row hapart hcolumns (by simp [rowOf_config])
  have hd : validatedUpload (jobData (row.merge (rowOf m)) config) = some m.membershipUpload := by
    unfold validatedUpload
    rw [hdata _ mem_fieldNames_upload,
      if_pos ((rowOf_columnOf_isSome hapart mem_fieldNames_upload).2 (by decide))]
    rfl
  refine loadsAs_of_validated hconfig hd rfl fun name hname hne => ?_
  have howned := rowOf_columnOf_isSome (m := m) hapart hname
  have hnot : ¬ (rowOf m (columnOf name)).isSome → validated row name = some (kept name) := by
    intro hnone
    rw [howned, not_not] at hnone
    exact hkept name hnone hname
  rw [saved, validated_written hm hname hne (hdata name hname) hnot]
  simp only [ModelFields.get, if_neg hne, ModelFields.backfilled, howned]
  split_ifs with h
  · rfl
  · rfl

omit [Pydantic] in
/-- The columns of some fields are those of the row, whole. -/
theorem columnsOf_eq (hapart : ConfigNamesApart) {fields : List String}
    (hfields : ∀ f ∈ fields, f ∈ fieldNames ∧ f ∉ runOwnedColumns) :
    ∃ columns, columnsOf m fields = some columns ∧
      ∀ c, columns c = if c ∈ fields.map columnOf then rowOf m c else none := by
  have hfold : ∀ (columns : Dict), ∃ columns',
      fields.foldlM (fun columns field => (rowOf m (columnOf field)).map fun v =>
        Function.update columns (columnOf field) (some v)) columns = some columns' ∧
      ∀ c, columns' c = if c ∈ fields.map columnOf then rowOf m c else columns c := by
    induction fields with
    | nil => exact fun columns => ⟨columns, rfl, fun c => rfl⟩
    | cons f fields ih =>
      intro columns
      obtain ⟨hf, howned⟩ := hfields f List.mem_cons_self
      obtain ⟨v, hv⟩ := rowOf_columnOf (m := m) hapart hf howned
      obtain ⟨columns', hrest, hget⟩ := ih (fun g hg => hfields g (List.mem_cons_of_mem f hg))
        (Function.update columns (columnOf f) (some v))
      refine ⟨columns', ?_, fun c => ?_⟩
      · rw [List.foldlM_cons, hv]
        exact hrest
      · rw [hget c, List.map_cons]
        by_cases hc : c = columnOf f
        · subst hc
          simp [hv]
        · simp [hc]
  exact hfold fun _ => none

/-- The fields that a write of some fields names, with those of the config it names any of. -/
def IsWritten (fields : List String) (name : String) : Prop :=
  name ∈ fields ∨ name ∈ configNames ∧ ∃ f ∈ fields, f ∈ configNames

instance (fields : List String) (name : String) : Decidable (IsWritten fields name) :=
  inferInstanceAs (Decidable (_ ∨ _))

omit [Pydantic] in
theorem columnOf_mem_iff (hapart : ConfigNamesApart) {fields : List String}
    (hfields : ∀ f ∈ fields, f ∈ fieldNames) (hname : name ∈ fieldNames) :
    columnOf name ∈ fields.map columnOf ↔ IsWritten fields name := by
  have hne : ∀ f ∈ fieldNames, f ≠ "config" := by
    intro f hf
    rcases List.mem_append.1 hf with hjob | hconfig
    · exact ne_config (mem_columnNames hjob)
    · exact (hapart f hconfig).2
  rw [List.mem_map]
  constructor
  · rintro ⟨f, hf, heq⟩
    unfold columnOf at heq
    split_ifs at heq with hfc hnc hnc
    · exact .inr ⟨hnc, f, hf, hfc⟩
    · exact absurd heq.symm (hne name hname)
    · exact absurd heq (hne f (hfields f hf))
    · exact .inl (heq ▸ hf)
  · rintro (hf | ⟨hnc, f, hf, hfc⟩)
    · exact ⟨name, hf, rfl⟩
    · exact ⟨f, hf, by rw [columnOf, columnOf, if_pos hfc, if_pos hnc]⟩

/-- **A row in which some fields of a valid model were written is loaded** with the model's values
of these, and of all of the config if one of them is of it. -/
theorem loadsAs_updated (hapart : ConfigNamesApart) (hrow : row.IsRow) (hm : m.Valid)
    (hold : loadRow row = some old) {fields : List String}
    (hfields : ∀ f ∈ fields, f ∈ fieldNames ∧ f ∉ runOwnedColumns) :
    ∃ columns, columnsOf m fields = some columns ∧ LoadsAs (row.merge columns) fun name =>
      if IsWritten fields name then m.backfilled.get name else old.get name := by
  obtain ⟨columns, hcolumns, hget⟩ := columnsOf_eq (m := m) hapart hfields
  have hwhole : ∀ c v, columns c = some v → rowOf m c = some v := by
    intro c v hc
    rw [hget c] at hc
    split_ifs at hc
    exact hc
  obtain ⟨m', hload, hm'⟩ := loadsAs_merge hapart hrow hm hold hwhole
  refine ⟨columns, hcolumns, m', hload, fun name hname => ?_⟩
  have hwritten := columnOf_mem_iff hapart (fun f hf => (hfields f hf).1) hname
  have hsome : (columns (columnOf name)).isSome ↔ IsWritten fields name := by
    rw [hget, ← hwritten]
    split_ifs with hmem
    · obtain ⟨f, hf, heq⟩ := List.mem_map.1 hmem
      obtain ⟨v, hv⟩ := rowOf_columnOf (m := m) hapart (hfields f hf).1 (hfields f hf).2
      rw [← heq, hv]
      simpa using ⟨f, hf, rfl⟩
    · simp [hmem]
  rw [hm' name hname]
  simp only [hsome]

omit [External] [Pydantic] in
theorem backfill_backfill (d : Dict) : backfill (backfill d) = backfill d := by
  funext key
  unfold backfill Dict.setDefault
  by_cases hsha : key = "download_sha256"
  · subst hsha
    simp
  · by_cases hstreet : key = "street_processing"
    · subst hstreet
      simp
    · simp [Function.update_of_ne hsha, Function.update_of_ne hstreet]

/-- What is loaded is valid, and has no key missing. -/
theorem valid_of_loadRow (hp : Pydantic.Documented) (hrow : row.IsRow)
    (hold : loadRow row = some old) : old.Valid ∧ old.backfilled = old := by
  obtain ⟨config, hconfig, ⟨d, -, hupload⟩, hfields⟩ := validated_of_loadRow hold
  constructor
  · intro name hname hne
    have hget := hfields name hname hne
    unfold validated at hget
    split at hget
    · exact hp.parse_parse name _ _ hget
    · rename_i hdata
      rw [← Option.some.inj hget]
      apply hp.parse_default name hname
      rintro rfl
      have hid : "job_id" ∈ columnNames := List.mem_cons_self
      rw [jobData_column hid (config_column hrow hconfig hid)] at hdata
      exact hrow.job_id hdata
  · rw [ModelFields.backfilled, hupload, backfill_backfill]
    exact congrArg (ModelFields.mk · old.others) hupload.symm

/-- The run-owned values that are loaded are those of the row. -/
theorem validated_runOwned (hrow : row.IsRow) (hold : loadRow row = some old)
    (howned : name ∈ runOwnedColumns) (hname : name ∈ fieldNames) :
    validated row name = some (old.get name) := by
  obtain ⟨config, hconfig, -, hfields⟩ := validated_of_loadRow hold
  have hcolumn := mem_columnNames_of_runOwned howned
  have hne : name ≠ "membership_upload" := by
    rintro rfl
    revert howned
    decide
  rw [← hfields name hname hne]
  unfold validated
  rw [jobData_column hcolumn (config_column hrow hconfig hcolumn)]

/-! ## The law -/

/-- **The encoding keeps the fields.** What is loaded after a save are the model's values, but the
run-owned ones of the row; after a write of some fields the model's values of these and of the
config if they name any of it, and the row's values of all others, and this write of an input
happens while the row is PENDING; and after a save of what was loaded the same as before. The
model's membership upload comes back with its missing keys filled in. -/
theorem encoding_keeps_fields (hapart : ConfigNamesApart) (hp : Pydantic.Documented) (hm : m.Valid)
    (hrow : row.IsRow) :
    (∀ kept : String → FieldValue,
      (∀ name ∈ runOwnedColumns, name ∈ fieldNames → validated row name = some (kept name)) →
      LoadsAs (saved row m) fun name =>
        if name ∈ runOwnedColumns then kept name else m.backfilled.get name) ∧
    ∀ old, loadRow row = some old →
      (∀ fields : List String, (∀ f ∈ fields, f ∈ fieldNames ∧ f ∉ runOwnedColumns) →
        (∃ row', updated row m fields = some row' ∧ LoadsAs row' fun name =>
          if IsWritten fields name then m.backfilled.get name else old.get name) ∧
        ∃ row', updatedInput row m fields = some (row', row.isPending) ∧ LoadsAs row' fun name =>
          if row.isPending ∧ IsWritten fields name then m.backfilled.get name else old.get name) ∧
      LoadsAs (saved row old) old.get := by
  refine ⟨fun kept hkept => loadsAs_saved hapart hm hkept,
    fun old hold => ⟨fun fields hfields => ?_, ?_⟩⟩
  · obtain ⟨columns, hcolumns, hloads⟩ := loadsAs_updated hapart hrow hm hold hfields
    refine ⟨⟨_, by rw [updated, hcolumns]; rfl, hloads⟩, ?_⟩
    rw [updatedInput, hcolumns, Option.map_some]
    cases hpending : row.isPending with
    | true => exact ⟨_, rfl, by simpa using hloads⟩
    | false => exact ⟨row, rfl, old, hold, fun name _ => by simp⟩
  · obtain ⟨hvalid, hfilled⟩ := valid_of_loadRow hp hrow hold
    obtain ⟨m', hload, hm'⟩ :=
      loadsAs_saved hapart hvalid fun name howned hname => validated_runOwned hrow hold howned hname
    refine ⟨m', hload, fun name hname => ?_⟩
    simp only [hm' name hname, hfilled, ite_self]

end

/-! ## A row before the last keys -/

section

/-- A config of one field. -/
@[reducible] def External.oneField : External where
  __ := External.plain
  configFields := [("max_distance", .int 50)]

/-- Every value is taken as it is. -/
@[reducible] def Pydantic.lenient : Pydantic where
  parse := fun _ v => some v

theorem lenient_documented : @Pydantic.Documented .oneField .lenient := by
  let _ := External.oneField
  let _ := Pydantic.lenient
  constructor
  case parse_parse => exact fun _ _ _ _ => rfl
  case parse_default => exact fun _ _ _ => rfl

def earlierConfig : Dict
  | "max_distance" => some (.value (.int 80))
  | _ => none

/-- A completed job's row, written before the membership upload had its last keys. -/
def earlierRow : Dict
  | "job_id" => some (.text "3f2a91c0")
  | "status" => some (.text "COMPLETED")
  | "submitted" => some (.value (.flag true))
  | "membership_upload" => some (.dict fun
    | "file_name" => some (.text "data_classified.csv")
    | "len" => some (.value (.int 12))
    | _ => none)
  | "config" => some (.dict earlierConfig)
  | _ => none

/-- A model of the job with another EPSG code and another config. -/
def editedModel : ModelFields where
  membershipUpload := fun
    | "file_name" => some (.text "data_classified.csv")
    | "len" => some (.value (.int 12))
    | _ => none
  others := fun
    | "job_id" => .text "3f2a91c0"
    | "epsg" => .value (.int 25833)
    | "max_distance" => .value (.int 100)
    | name => @fieldDefault .oneField name

theorem configNames_oneField : @configNames .oneField = ["max_distance"] :=
  rfl

theorem configNamesApart_oneField : @ConfigNamesApart .oneField := by
  unfold ConfigNamesApart
  rw [configNames_oneField]
  decide

theorem earlierRow_isRow : earlierRow.IsRow := by
  constructor
  case job_id => exact Option.some_ne_none _
  case config_apart =>
    intro d hd column hcolumn
    obtain rfl : earlierConfig = d := FieldValue.dict.inj (Option.some.inj hd)
    have hne : column ≠ "max_distance" := by
      rintro rfl
      revert hcolumn
      decide
    unfold earlierConfig
    split
    · contradiction
    · rfl

theorem editedModel_valid : @ModelFields.Valid .oneField .lenient editedModel :=
  fun _ _ _ => rfl

theorem earlierRow_loads : ∃ old, @loadRow .oneField .lenient earlierRow = some old := by
  apply Option.isSome_iff_exists.1
  decide +kernel

theorem encoding_keeps_fields_earlierRow :
    ∃ old, @loadRow .oneField .lenient earlierRow = some old ∧
    @LoadsAs .oneField .lenient (@saved .oneField earlierRow old) old.get ∧
    ∃ row', @updated .oneField earlierRow editedModel ["max_distance"] = some row' ∧
      @LoadsAs .oneField .lenient row' fun name =>
        if @IsWritten .oneField ["max_distance"] name then editedModel.backfilled.get name
        else old.get name := by
  let _ := External.oneField
  let _ := Pydantic.lenient
  obtain ⟨old, hold⟩ := earlierRow_loads
  have h := (encoding_keeps_fields configNamesApart_oneField lenient_documented editedModel_valid
    earlierRow_isRow).2 old hold
  exact ⟨old, hold, h.2, (h.1 ["max_distance"] (by decide)).1⟩

/-- **A save and a load can change a membership upload**: the keys it lacks are there afterwards. -/
theorem missing_keys_filled_in : @ModelFields.Valid .oneField .lenient editedModel ∧
    ∃ m, @loadRow .oneField .lenient (@saved .oneField earlierRow editedModel) = some m ∧
      m.get "membership_upload" ≠ editedModel.get "membership_upload" := by
  let _ := External.oneField
  let _ := Pydantic.lenient
  refine ⟨editedModel_valid, ?_⟩
  let kept : String → FieldValue := fun name => (validated earlierRow name).getD .null
  have hkept : ∀ name ∈ runOwnedColumns, name ∈ fieldNames →
      validated earlierRow name = some (kept name) := by
    intro name _ _
    unfold kept validated
    split <;> rfl
  obtain ⟨m, hload, hm⟩ := loadsAs_saved configNamesApart_oneField editedModel_valid hkept
  refine ⟨m, hload, ?_⟩
  rw [hm _ mem_fieldNames_upload]
  intro heq
  injection heq with heq
  have hkey := congrFun heq "street_processing"
  change backfill editedModel.membershipUpload "street_processing" = none at hkey
  simp [backfill, Dict.setDefault] at hkey

end

end Cosmonaut
