import BluekingDbm.Config.Effective
import BluekingDbm.Library.Text
import Mathlib.Data.List.Perm.Basic

/-! The items of a response: one map, or a map of sections where names are cut at a separator. -/
namespace Config

open Base64 (Bytes)
open Text

/-- `api.BaseConfItemResp`. -/
structure BaseConfItemResp where
  confName : String
  confValue : Bytes
  flagDisable : ℤ
  flagLocked : ℤ
  levelName : String
  levelValue : String
  upLevelValue : Option UpLevelValue
  opType : String

/-- The values that an `interface{}` of the response holds. -/
inductive Value
  | null
  | string (text : Bytes)
  | int (n : ℤ)
  | float32 (x : Float32)
  | float64 (x : Float)
  | bool (b : Bool)
  | strings (items : List Bytes)
  | array (items : List Value)
  | object (members : List (String × Value))
  | objects (items : List (List (String × Value)))
  | item (item : BaseConfItemResp)

structure BaseConfFileDef where
  nameSpace : String
  confType : String
  confFile : String
deriving DecidableEq

/-- The type and the sub type of a name. -/
structure NameType where
  valueType : String
  valueTypeSub : String

/-- What the caches answer, and the casts and the decoder that are called. A failed cast gives the zero
of its type; a failed decoding gives nothing. `ranged` is the order of a map. -/
structure Casting where
  configFile : BaseConfFileDef → Except Unit (Option ℤ)
  configNameDef : BaseConfFileDef → String → Except Unit (Option NameType)
  toInt : Bytes → ℤ
  toFloat32 : Bytes → Float32
  unmarshalMap : Bytes → Option (List (String × Value))
  unmarshalList : Bytes → Option (List (List (String × Value)))
  ranged : RangeOrder (Sigma fun _ : String => AList fun _ : String => Value)

/-- `strings.TrimSpace`; what is no text is left alone. -/
def trimBytes (v : Bytes) : Bytes :=
  match String.fromUTF8? ⟨v.toArray⟩ with
  | some s => bytes (trimSpace s)
  | none => v

def toBoolExt (v : Bytes) : Bool :=
  decide (v ∈ ["1", "t", "T", "true", "TRUE", "True", "YES", "yes", "Yes", "Y", "y", "ON", "on",
    "On"].map bytes)

def splitAnyRuneTrim (v : Bytes) : List Bytes :=
  ((v.splitOnP fun b => b == 44).filter fun item => !item.isEmpty).map trimBytes

def base64Flag : Bytes := bytes "==base64=="

def decodeBase64Value (value : Bytes) : Bytes :=
  if base64Flag <+: value then
    (Base64.decode (trimBytes (value.drop base64Flag.length))).getD value
  else value

namespace Casting

variable (env : Casting)

def castString (valueSubType : String) (confValue : Bytes) : Value :=
  if valueSubType = "LIST" then .strings (splitAnyRuneTrim confValue)
  else if valueSubType = "MAP" then
    let confValue := if base64Flag <+: confValue then decodeBase64Value confValue else confValue
    match env.unmarshalMap confValue with
    | some members => .object members
    | none => .string confValue
  else if valueSubType = "JSON" then
    let confValueTrimmed := trimBytes confValue
    if bytes "[" <+: confValueTrimmed then
      match env.unmarshalList confValueTrimmed with
      | some items => .objects items
      | none => .string confValue
    else if bytes "\x7b" <+: confValueTrimmed then
      match env.unmarshalMap confValueTrimmed with
      | some members => .object members
      | none => .string confValue
    else .string confValue
  else .string confValue

/-- `CastValueType`; none is a panic, where the name is cached as undefined. A failed lookup leaves the
types empty. -/
def castValueType (confName : String) (confValue : Bytes) (f : BaseConfFileDef)
    (valueTypeStrict : ℤ) : Option Value :=
  if valueTypeStrict = 0 ∨ confValueIsPlaceHolder confValue = true then some (.string confValue)
  else
    match env.configNameDef f confName with
    | .error _ => some (.string confValue)
    | .ok none => none
    | .ok (some nameDef) =>
      some <|
        if nameDef.valueType = "" then .string confValue
        else if nameDef.valueType = "INT" then .int (env.toInt confValue)
        else if nameDef.valueType = "FLOAT" ∨ nameDef.valueType = "NUMBER" then
          .float32 (env.toFloat32 confValue)
        else if nameDef.valueType = "BOOL" then .bool (toBoolExt confValue)
        else if nameDef.valueType = "STRING" then env.castString nameDef.valueTypeSub confValue
        else .string confValue

end Casting

def newBaseConfItemWithModel (c : ConfigModel) (opType : String) : BaseConfItemResp where
  confName := c.confName
  confValue := c.confValue
  flagDisable := c.flagDisable
  flagLocked := c.flagLocked
  levelName := c.levelName
  levelValue := c.levelValue
  upLevelValue := c.upLevelValue
  opType := opType

inductive FormatError
  | configFile
  | illegalFormat (format : String)

abbrev Items := AList fun _ : String => Value

/-- The plain items and the sections that have been read so far. -/
structure Sections where
  confItems : Items
  tmpContent : AList fun _ : String => Items

/-- A value goes under its name, or into the section of its name. -/
def Sections.put (separator : String) (s : Sections) (entry : String × Value) : Sections :=
  match cut entry.1 separator with
  | none => { s with confItems := s.confItems.insert entry.1 entry.2 }
  | some (cSection, confName) =>
    match s.tmpContent.lookup cSection with
    | some content =>
      { s with tmpContent := s.tmpContent.insert cSection (content.insert confName entry.2) }
    | none =>
      { s with tmpContent :=
          s.tmpContent.insert cSection ((∅ : Items).insert confName entry.2) }

def members (content : Items) : List (String × Value) := content.entries.map fun e => (e.1, e.2)

/-- The sections are written last. -/
def Sections.close (ranged : RangeOrder (Sigma fun _ : String => Items)) (s : Sections) : Items :=
  (ranged.order s.tmpContent.entries).foldl (fun confItems e =>
    confItems.insert e.1 (.object (members e.2))) s.confItems

namespace Casting

variable (env : Casting)

/-- The name and the cast value of a row. -/
def castRow (fd : BaseConfFileDef) (valueTypeStrict : ℤ) (c : ConfigModel) :
    Option (String × Value) :=
  (env.castValueType c.confName c.confValue fd valueTypeStrict).map fun v => (c.confName, v)

def formatMap (fd : BaseConfFileDef) (valueTypeStrict : ℤ) (configs : List ConfigModel) :
    Option Items :=
  configs.foldlM (fun confItems c =>
    (env.castRow fd valueTypeStrict c).map fun entry => confItems.insert entry.1 entry.2) ∅

def formatSections (separator : String) (fd : BaseConfFileDef) (valueTypeStrict : ℤ)
    (configs : List ConfigModel) : Option Items :=
  (configs.foldlM (fun s c => (env.castRow fd valueTypeStrict c).map (Sections.put separator s))
    ⟨∅, ∅⟩).map (Sections.close env.ranged)

/-- `FormatConfItemForResp`; none is a panic, also where the file is not defined. The file is that of the
first row. -/
def formatConfItemForResp (format : String) (configs : List ConfigModel) :
    Option (Except FormatError Items) :=
  match configs with
  | [] => some (.ok ∅)
  | c0 :: _ =>
    let fd : BaseConfFileDef := ⟨c0.nameSpace, c0.confType, c0.confFile⟩
    match env.configFile fd with
    | .error _ => some (.error .configFile)
    | .ok cFile =>
      if format = "map" then
        cFile.bind fun strict => (env.formatMap fd strict configs).map .ok
      else if "map".toList <+: format.toList then
        let separator := String.ofList (format.toList.drop 3)
        if separator = "" then cFile.bind fun strict => (env.formatMap fd strict configs).map .ok
        else cFile.bind fun strict => (env.formatSections separator fd strict configs).map .ok
      else if format = "list" then
        some (.ok (configs.foldl (fun confItems c =>
          confItems.insert c.confName (.item (newBaseConfItemWithModel c ""))) ∅))
      else some (.error (.illegalFormat format))

end Casting

section Flatten

/-- A section with its names joined back, or a plain value. Without a separator there are no sections. -/
def flattenEntry (separator name : String) : Value → List (String × Value)
  | .object content =>
    if separator = "" then [(name, .object content)]
    else content.map fun p => (name ++ separator ++ p.1, p.2)
  | v => [(name, v)]

def flatten (separator : String) (items : Items) : List (String × Value) :=
  items.entries.flatMap fun e => flattenEntry separator e.1 e.2

/-- The names of the rows with their cast values. -/
def Casting.rowValues (env : Casting) (configs : List ConfigModel) :
    Option (List (String × Value)) :=
  match configs with
  | [] => some []
  | c0 :: _ =>
    let fd : BaseConfFileDef := ⟨c0.nameSpace, c0.confType, c0.confFile⟩
    match env.configFile fd with
    | .ok (some strict) => configs.mapM (env.castRow fd strict)
    | _ => none

/-- The response gives back each name once, with its value. -/
def Lossless (env : Casting) (separator : String) (configs : List ConfigModel) : Prop :=
  ∃ items values, env.formatConfItemForResp ("map" ++ separator) configs = some (.ok items) ∧
    env.rowValues configs = some values ∧ (flatten separator items).Perm values

/-- The file is defined and no row panics; and, with a separator, no plain name is a section or has a map
as its value. -/
def Separable (env : Casting) (separator : String) (configs : List ConfigModel) : Prop :=
  ∃ values, env.rowValues configs = some values ∧ (separator ≠ "" →
    ∀ p ∈ values, cut p.1 separator = none → (∀ content, p.2 ≠ .object content) ∧
      ∀ q ∈ values, ∀ key, cut q.1 separator ≠ some (p.1, key))

variable {env : Casting} {separator : String} {configs : List ConfigModel} {done : List (String × Value)}
  {p q : String × Value} {s : Sections} {k : String}

/-- A fold that casts each row is a fold over the cast values. -/
theorem foldlM_castRow {σ : Type} (put : σ → String × Value → σ) (fd : BaseConfFileDef) (strict : ℤ)
    (configs : List ConfigModel) (s : σ) :
    configs.foldlM (fun s c => (env.castRow fd strict c).map (put s)) s =
      (configs.mapM (env.castRow fd strict)).map fun values => values.foldl put s := by
  induction configs generalizing s with
  | nil => rfl
  | cons c configs ih =>
    rw [List.foldlM_cons, List.mapM_cons]
    cases env.castRow fd strict c with
    | none => rfl
    | some entry =>
      simp only [Option.map_some, Option.bind_eq_bind, Option.bind_some, ih]
      cases configs.mapM (env.castRow fd strict) with
      | none => rfl
      | some values => rfl

theorem map_fst_mapM {fd : BaseConfFileDef} {strict : ℤ} {values : List (String × Value)}
    (h : configs.mapM (env.castRow fd strict) = some values) :
    values.map Prod.fst = configs.map ConfigModel.confName := by
  induction configs generalizing values with
  | nil =>
    cases h
    rfl
  | cons c configs ih =>
    rw [List.mapM_cons] at h
    obtain ⟨entry, hentry, h⟩ := Option.bind_eq_some_iff.mp h
    obtain ⟨rest, hrest, h⟩ := Option.bind_eq_some_iff.mp h
    cases h
    obtain ⟨v, -, rfl⟩ := Option.map_eq_some_iff.mp hentry
    rw [List.map_cons, List.map_cons, ih hrest]

/-- An entry of a section with its name joined back. -/
def joined (separator cSection : String) (content : Items) : List (String × Value) :=
  (members content).map fun p => (cSection ++ separator ++ p.1, p.2)

/-- Where the values read so far have been put. -/
structure Placed (separator : String) (done : List (String × Value)) (s : Sections) : Prop where
  plain : (members s.confItems).Perm (done.filter fun p => (cut p.1 separator).isNone)
  sectioned : (s.tmpContent.entries.flatMap fun e => joined separator e.1 e.2).Perm
    (done.filter fun p => (cut p.1 separator).isSome)
  sections : ∀ k, k ∈ s.tmpContent ↔ ∃ p ∈ done, ∃ key, cut p.1 separator = some (k, key)

theorem mem_members {content : Items} {k : String} :
    k ∈ content ↔ ∃ v, (k, v) ∈ members content := by
  constructor
  · intro h
    obtain ⟨v, hv⟩ := Option.isSome_iff_exists.mp (AList.lookup_isSome.mpr h)
    exact ⟨v, List.mem_map.mpr ⟨_, AList.mem_lookup_iff.mp hv, rfl⟩⟩
  · rintro ⟨v, hv⟩
    obtain ⟨e, he, heq⟩ := List.mem_map.mp hv
    cases heq
    exact List.mem_keys_of_mem he

theorem members_insert_new {content : Items} {k : String} {v : Value} (h : k ∉ content) :
    members (content.insert k v) = (k, v) :: members content := by
  rw [members, Table.entries_insert_new h]
  rfl

theorem placed_nil : Placed separator [] ⟨∅, ∅⟩ where
  plain := .refl _
  sectioned := .refl _
  sections k := by
    constructor
    · intro h
      exact absurd h (AList.notMem_empty k)
    · rintro ⟨p, hp, -⟩
      exact absurd hp List.not_mem_nil

/-- The sections with one taken out. -/
theorem perm_joined (tmpContent : AList fun _ : String => Items) (k : String) :
    (tmpContent.entries.flatMap fun e => joined separator e.1 e.2).Perm
      (joined separator k ((tmpContent.lookup k).getD ∅) ++
        (tmpContent.erase k).entries.flatMap fun e => joined separator e.1 e.2) := by
  cases hk : tmpContent.lookup k with
  | some content => exact (Table.perm_erase hk).flatMap_right _
  | none =>
    have herase : (tmpContent.erase k).entries = tmpContent.entries :=
      List.kerase_of_notMem_keys (AList.lookup_eq_none.mp hk)
    rw [herase]
    exact .refl _

theorem put_cut {cSection confName : String} (h : cut p.1 separator = some (cSection, confName)) :
    s.put separator p = { s with
      tmpContent := s.tmpContent.insert cSection
        (((s.tmpContent.lookup cSection).getD ∅).insert confName p.2) } := by
  simp only [Sections.put, h]
  cases s.tmpContent.lookup cSection with
  | none => rfl
  | some content => rfl

/-- One value under a new name. -/
theorem Placed.put (h : Placed separator done s) (hnew : p.1 ∉ done.map Prod.fst) :
    Placed separator (done ++ [p]) (s.put separator p) := by
  cases hcut : cut p.1 separator with
  | none =>
    have hput : s.put separator p = { s with confItems := s.confItems.insert p.1 p.2 } := by
      simp only [Sections.put, hcut]
    have hfresh : p.1 ∉ s.confItems := by
      intro hmem
      obtain ⟨v, hv⟩ := mem_members.mp hmem
      have hdone := (List.mem_filter.mp (h.plain.mem_iff.mp hv)).1
      exact hnew (List.mem_map.mpr ⟨_, hdone, rfl⟩)
    rw [hput]
    refine ⟨?_, ?_, fun k => ?_⟩
    · rw [members_insert_new hfresh, List.filter_append]
      have hlast : ([p].filter fun p => (cut p.1 separator).isNone) = [p] := by simp [hcut]
      rw [hlast]
      exact (h.plain.cons p).trans (List.perm_append_singleton p _).symm
    · rw [List.filter_append]
      have hlast : ([p].filter fun p => (cut p.1 separator).isSome) = [] := by simp [hcut]
      rw [hlast, List.append_nil]
      exact h.sectioned
    · rw [h.sections k]
      simp [hcut]
  | some parts =>
    obtain ⟨cSection, confName⟩ := parts
    have hname := cut_eq_some hcut
    rw [put_cut hcut]
    have hfresh : confName ∉ (s.tmpContent.lookup cSection).getD ∅ := by
      intro hmem
      obtain ⟨v, hv⟩ := mem_members.mp hmem
      have hjoined : (p.1, v) ∈ joined separator cSection ((s.tmpContent.lookup cSection).getD ∅) :=
        List.mem_map.mpr ⟨(confName, v), hv, by rw [hname]⟩
      have hdone := h.sectioned.mem_iff.mp
        ((perm_joined s.tmpContent cSection).mem_iff.mpr (List.mem_append_left _ hjoined))
      exact hnew (List.mem_map.mpr ⟨_, (List.mem_filter.mp hdone).1, rfl⟩)
    refine ⟨?_, ?_, fun k => ?_⟩
    · rw [List.filter_append]
      have hlast : ([p].filter fun p => (cut p.1 separator).isNone) = [] := by simp [hcut]
      rw [hlast, List.append_nil]
      exact h.plain
    · rw [List.filter_append]
      have hlast : ([p].filter fun p => (cut p.1 separator).isSome) = [p] := by simp [hcut]
      rw [hlast, AList.entries_insert, List.flatMap_cons, joined, members_insert_new hfresh,
        List.map_cons, hname]
      exact (((perm_joined s.tmpContent cSection).symm.trans h.sectioned).cons p).trans
        (List.perm_append_singleton p _).symm
    · rw [AList.mem_insert, h.sections k]
      constructor
      · rintro (rfl | ⟨q, hq, key, hkey⟩)
        · exact ⟨p, by simp, confName, hcut⟩
        · exact ⟨q, by simp [hq], key, hkey⟩
      · rintro ⟨q, hq, key, hkey⟩
        rcases List.mem_append.mp hq with hq | hq
        · exact .inr ⟨q, hq, key, hkey⟩
        · obtain rfl := List.mem_singleton.mp hq
          rw [hcut] at hkey
          cases hkey
          exact .inl rfl

theorem Placed.foldl {rest : List (String × Value)} (h : Placed separator done s)
    (hnames : ((done ++ rest).map Prod.fst).Nodup) :
    Placed separator (done ++ rest) (rest.foldl (Sections.put separator) s) := by
  induction rest generalizing done s with
  | nil => rwa [List.append_nil]
  | cons p rest ih =>
    rw [List.append_cons] at hnames ⊢
    refine ih (h.put ?_) hnames
    rw [List.map_append, List.map_append] at hnames
    have hdone := (List.nodup_append.mp hnames).1
    intro hmem
    exact (List.nodup_append.mp hdone).2.2 _ hmem _ (by simp) rfl

theorem lookup_close {es : List (Sigma fun _ : String => Items)} {m : Items}
    (h : k ∈ es.map Sigma.fst ∨ ∃ content, m.lookup k = some (.object content)) :
    ∃ content, (es.foldl (fun confItems e =>
      confItems.insert e.1 (.object (members e.2))) m).lookup k = some (.object content) := by
  induction es generalizing m with
  | nil =>
    rcases h with h | h
    · exact absurd h List.not_mem_nil
    · exact h
  | cons e es ih =>
    apply ih
    by_cases hk : k = e.1
    · exact .inr ⟨members e.2, by rw [hk, AList.lookup_insert]⟩
    · rcases h with h | ⟨content, h⟩
      · exact .inl ((List.mem_cons.mp h).resolve_left hk)
      · exact .inr ⟨content, by rw [AList.lookup_insert_ne hk, h]⟩

/-- A section is the value of its name. -/
theorem close_section (r : RangeOrder (Sigma fun _ : String => Items)) (h : k ∈ s.tmpContent) :
    ∃ content, (s.close r).lookup k = some (.object content) := by
  refine lookup_close (.inl ?_)
  obtain ⟨e, he, rfl⟩ := List.mem_map.mp h
  exact List.mem_map_of_mem (r.mem_order.mpr he)

theorem perm_close (r : RangeOrder (Sigma fun _ : String => Items))
    (h : ∀ k ∈ s.tmpContent, k ∉ s.confItems) : (s.close r).entries.Perm
      (s.tmpContent.entries.map (fun e => ⟨e.1, .object (members e.2)⟩) ++ s.confItems.entries) := by
  let entry : (Sigma fun _ : String => Items) → String × Value := fun e =>
    (e.1, .object (members e.2))
  have hclose : s.close r = ((r.order s.tmpContent.entries).map entry).foldl
      (fun confItems p => confItems.insert p.1 p.2) s.confItems := by
    rw [Sections.close, List.foldl_map]
  have hkeys : (((r.order s.tmpContent.entries).map entry).map Prod.fst).Nodup := by
    rw [List.map_map]
    exact ((r.perm _).map _).nodup_iff.mpr s.tmpContent.nodupKeys
  have hnew : ∀ p ∈ (r.order s.tmpContent.entries).map entry, p.1 ∉ s.confItems := by
    intro p hp
    obtain ⟨e, he, rfl⟩ := List.mem_map.mp hp
    exact h e.1 (List.mem_keys_of_mem (r.mem_order.mp he))
  rw [hclose]
  refine (Table.perm_enter hkeys hnew).trans ?_
  rw [List.map_map]
  exact ((r.perm _).map _).append_right _

theorem flattenEntry_plain {name : String} {v : Value} (h : ∀ content, v ≠ .object content) :
    flattenEntry separator name v = [(name, v)] := by
  cases v with
  | object content => exact absurd rfl (h content)
  | _ => rfl

theorem flattenEntry_empty (name : String) (v : Value) : flattenEntry "" name v = [(name, v)] := by
  cases v <;> rfl

/-- Entries that are left as they are. -/
theorem flatMap_flattenEntry {entries : List (Sigma fun _ : String => Value)}
    (h : ∀ e ∈ entries, flattenEntry separator e.1 e.2 = [(e.1, e.2)]) :
    (entries.flatMap fun e => flattenEntry separator e.1 e.2) = entries.map fun e => (e.1, e.2) := by
  induction entries with
  | nil => rfl
  | cons e entries ih =>
    rw [List.flatMap_cons, h e List.mem_cons_self, ih fun e' he' => h e' (List.mem_cons_of_mem _ he')]
    rfl

/-- What the response says of a name that no section can hold. -/
theorem mem_flatten_plain {items : Items} (hsep : separator ≠ "") (hcut : cut p.1 separator = none)
    (h : p ∈ flatten separator items) :
    items.lookup p.1 = some p.2 ∧ ∀ content, p.2 ≠ .object content := by
  obtain ⟨e, he, hp⟩ := List.mem_flatMap.mp h
  obtain ⟨name, v⟩ := e
  have hlookup : items.lookup name = some v := AList.mem_lookup_iff.mpr he
  by_cases hobject : ∃ content, v = .object content
  · obtain ⟨content, rfl⟩ := hobject
    rw [flattenEntry, if_neg hsep] at hp
    obtain ⟨q, -, rfl⟩ := List.mem_map.mp hp
    exact absurd hcut (cut_append name separator q.1)
  · have hplain : ∀ content, v ≠ .object content := fun content heq => hobject ⟨content, heq⟩
    rw [flattenEntry_plain hplain] at hp
    obtain rfl := List.mem_singleton.mp hp
    exact ⟨hlookup, hplain⟩

/-- Sections that no plain name takes part in are flattened to what was put in. -/
theorem perm_flatten_close (r : RangeOrder (Sigma fun _ : String => Items)) (hsep : separator ≠ "")
    {values : List (String × Value)} (hs : Placed separator values s)
    (hplain : ∀ p ∈ values, cut p.1 separator = none → (∀ content, p.2 ≠ .object content) ∧
      ∀ q ∈ values, ∀ key, cut q.1 separator ≠ some (p.1, key)) :
    (flatten separator (s.close r)).Perm values := by
  have hnone : ∀ e ∈ members s.confItems, e ∈ values ∧ cut e.1 separator = none := by
    intro e he
    obtain ⟨hmem, hcut⟩ := List.mem_filter.mp (hs.plain.mem_iff.mp he)
    exact ⟨hmem, Option.isNone_iff_eq_none.mp hcut⟩
  have hdisjoint : ∀ k ∈ s.tmpContent, k ∉ s.confItems := by
    intro k hk hmem
    obtain ⟨v, hv⟩ := mem_members.mp hmem
    obtain ⟨q, hq, key, hkey⟩ := (hs.sections k).mp hk
    obtain ⟨hmem, hcut⟩ := hnone _ hv
    exact (hplain _ hmem hcut).2 q hq key hkey
  have hsections : ((s.tmpContent.entries.map
      (fun e => (⟨e.1, .object (members e.2)⟩ : Sigma fun _ : String => Value))).flatMap
        fun e => flattenEntry separator e.1 e.2) =
      s.tmpContent.entries.flatMap fun e => joined separator e.1 e.2 := by
    rw [List.flatMap_map]
    congr 1
    funext e
    exact if_neg hsep
  have hitems : (s.confItems.entries.flatMap fun e => flattenEntry separator e.1 e.2) =
      members s.confItems := by
    refine flatMap_flattenEntry fun e he => flattenEntry_plain ?_
    obtain ⟨hmem, hcut⟩ := hnone _ (List.mem_map_of_mem he)
    exact (hplain _ hmem hcut).1
  have hflat := (perm_close r hdisjoint).flatMap_right fun e => flattenEntry separator e.1 e.2
  rw [List.flatMap_append, hsections, hitems] at hflat
  refine hflat.trans ((hs.sectioned.append hs.plain).trans ?_)
  have hfilter : (fun p : String × Value => (cut p.1 separator).isNone) =
      fun p => !(cut p.1 separator).isSome := by
    funext p
    cases cut p.1 separator <;> rfl
  rw [hfilter]
  exact List.filter_append_perm _ values

/-- What is lost otherwise. -/
theorem plain_of_perm (r : RangeOrder (Sigma fun _ : String => Items)) (hsep : separator ≠ "")
    {values : List (String × Value)} (hs : Placed separator values s)
    (hperm : (flatten separator (s.close r)).Perm values) :
    ∀ p ∈ values, cut p.1 separator = none → (∀ content, p.2 ≠ .object content) ∧
      ∀ q ∈ values, ∀ key, cut q.1 separator ≠ some (p.1, key) := by
  intro p hp hcut
  obtain ⟨hlookup, hplain⟩ := mem_flatten_plain hsep hcut (hperm.mem_iff.mpr hp)
  refine ⟨hplain, fun q hq key hkey => ?_⟩
  obtain ⟨content, hcontent⟩ := close_section r ((hs.sections p.1).mpr ⟨q, hq, key, hkey⟩)
  rw [hlookup] at hcontent
  exact hplain content (Option.some.inj hcontent)

/-- The response to rows of a defined file, without a separator and with one. -/
theorem format_defined {c0 : ConfigModel} {strict : ℤ}
    (hfile : env.configFile ⟨c0.nameSpace, c0.confType, c0.confFile⟩ = .ok (some strict)) :
    env.formatConfItemForResp ("map" ++ separator) (c0 :: configs) =
      (env.rowValues (c0 :: configs)).map fun values => .ok <|
        if separator = "" then values.foldl (fun confItems p => confItems.insert p.1 p.2) ∅
        else (values.foldl (Sections.put separator) ⟨∅, ∅⟩).close env.ranged := by
  simp only [Casting.formatConfItemForResp, Casting.rowValues, hfile]
  by_cases hsep : separator = ""
  · have hformat : "map" ++ separator = "map" := by rw [hsep]; rfl
    rw [if_pos hformat]
    simp only [hsep, if_true, Option.bind_some, Casting.formatMap]
    rw [foldlM_castRow (fun (confItems : Items) (p : String × Value) => confItems.insert p.1 p.2),
      Option.map_map]
    rfl
  · have hformat : "map" ++ separator ≠ "map" := by
      intro h
      apply hsep
      apply String.toList_injective
      have hchars : "map".toList ++ separator.toList = "map".toList ++ [] := by
        rw [← String.toList_append, h, List.append_nil]
      exact List.append_cancel_left hchars
    have hprefixed : "map".toList <+: ("map" ++ separator).toList := by
      rw [String.toList_append]
      exact List.prefix_append _ _
    have hdrop : String.ofList (("map" ++ separator).toList.drop 3) = separator := by
      rw [String.toList_append]
      exact String.ofList_toList
    rw [if_neg hformat, if_pos hprefixed, hdrop, if_neg hsep]
    simp only [hsep, if_false, Option.bind_some, Casting.formatSections]
    rw [foldlM_castRow, Option.map_map, Option.map_map]
    rfl

theorem rowValues_some {c0 : ConfigModel} {values : List (String × Value)}
    (h : env.rowValues (c0 :: configs) = some values) :
    ∃ strict, env.configFile ⟨c0.nameSpace, c0.confType, c0.confFile⟩ = .ok (some strict) ∧
      values.map Prod.fst = (c0 :: configs).map ConfigModel.confName := by
  simp only [Casting.rowValues] at h
  cases hfile : env.configFile ⟨c0.nameSpace, c0.confType, c0.confFile⟩ with
  | error e =>
    rw [hfile] at h
    cases h
  | ok cFile =>
    rw [hfile] at h
    cases cFile with
    | none => cases h
    | some strict => exact ⟨strict, rfl, map_fst_mapM h⟩

/-- The values of distinct names, put in and flattened. -/
theorem perm_flatten_iff (r : RangeOrder (Sigma fun _ : String => Items))
    {values : List (String × Value)} (hnames : (values.map Prod.fst).Nodup) :
    (flatten separator <|
      if separator = "" then values.foldl (fun confItems p => confItems.insert p.1 p.2) ∅
      else (values.foldl (Sections.put separator) ⟨∅, ∅⟩).close r).Perm values ↔
      (separator ≠ "" → ∀ p ∈ values, cut p.1 separator = none → (∀ content, p.2 ≠ .object content) ∧
        ∀ q ∈ values, ∀ key, cut q.1 separator ≠ some (p.1, key)) := by
  by_cases hsep : separator = ""
  · subst hsep
    rw [if_pos rfl]
    refine ⟨fun _ h => absurd rfl h, fun _ => ?_⟩
    have hentries : ∀ items : Items, flatten "" items = members items :=
      fun items => flatMap_flattenEntry fun e _ => flattenEntry_empty e.1 e.2
    rw [hentries, members]
    have hperm := (Table.perm_enter hnames fun p _ => AList.notMem_empty p.1).map
      fun e : Sigma fun _ : String => Value => (e.1, e.2)
    simpa [List.map_append, List.map_map, Function.comp_def] using hperm
  · rw [if_neg hsep]
    have hs : Placed separator values (values.foldl (Sections.put separator) ⟨∅, ∅⟩) :=
      placed_nil.foldl hnames
    constructor
    · intro hperm _
      exact plain_of_perm r hsep hs hperm
    · intro hplain
      exact perm_flatten_close r hsep hs (hplain hsep)

/-- The response loses nothing exactly where the rows can be separated. -/
theorem lossless_iff (env : Casting) (separator : String) (configs : List ConfigModel)
    (hnames : (configs.map ConfigModel.confName).Nodup) :
    Lossless env separator configs ↔ Separable env separator configs := by
  cases configs with
  | nil =>
    refine ⟨fun _ => ⟨[], rfl, fun _ p hp => absurd hp List.not_mem_nil⟩, fun _ => ?_⟩
    exact ⟨∅, [], rfl, rfl, .refl _⟩
  | cons c0 configs =>
    constructor
    · rintro ⟨items, values, hformat, hvalues, hperm⟩
      obtain ⟨strict, hfile, hfst⟩ := rowValues_some hvalues
      rw [format_defined hfile, hvalues] at hformat
      cases hformat
      exact ⟨values, hvalues, (perm_flatten_iff env.ranged (by rw [hfst]; exact hnames)).mp hperm⟩
    · rintro ⟨values, hvalues, hplain⟩
      obtain ⟨strict, hfile, hfst⟩ := rowValues_some hvalues
      refine ⟨_, values, ?_, hvalues,
        (perm_flatten_iff env.ranged (by rw [hfst]; exact hnames)).mpr hplain⟩
      rw [format_defined hfile, hvalues]
      rfl

/-- Loose values, and a file that is defined. -/
def looseCasting : Casting where
  configFile _ := .ok (some 0)
  configNameDef _ _ := .ok none
  toInt _ := 0
  toFloat32 _ := 0
  unmarshalMap _ := none
  unmarshalList _ := none
  ranged := .still

/-- A plain name, and one in a section of that name. -/
def sectionRows : List ConfigModel :=
  [{ notifierItem "app" "3" "on" with confName := "mysqld" },
    { notifierItem "app" "3" "64" with confName := "mysqld.max_connections" }]

theorem lossless_iff_sectionRows :
    Lossless looseCasting "." sectionRows ↔ Separable looseCasting "." sectionRows :=
  lossless_iff looseCasting "." sectionRows (by decide)

/-- The plain value is overwritten. -/
theorem sectionRows_not_lossless : (sectionRows.map ConfigModel.confName).Nodup ∧
    ¬ Lossless looseCasting "." sectionRows := by
  refine ⟨by decide, ?_⟩
  rintro ⟨items, values, hformat, hvalues, hperm⟩
  have hrows : looseCasting.rowValues sectionRows =
      some [("mysqld", .string (bytes "on")), ("mysqld.max_connections", .string (bytes "64"))] := rfl
  obtain rfl := Option.some.inj (hrows.symm.trans hvalues)
  have hdefined : looseCasting.formatConfItemForResp ("map" ++ ".") sectionRows = _ := format_defined rfl
  rw [show looseCasting.rowValues (_ :: _) = _ from hrows] at hdefined
  rw [hdefined] at hformat
  cases hformat
  have hplain := (perm_flatten_iff looseCasting.ranged (by decide)).mp hperm (by decide)
  exact (hplain _ List.mem_cons_self (by decide)).2 _ (List.mem_cons_of_mem _ List.mem_cons_self)
    "max_connections" (by decide)

end Flatten

end Config
