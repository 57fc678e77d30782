import Mathlib.Data.List.Basic
import Passage.Proofs.Settings.Layer
import Passage.Proofs.Text.Items
import Passage.Settings.Load

/-! What layers say about the settings. A document says something by the entries of its
table, or by paths into it; an override says one thing. Whatever else a document holds leaves
the settings alone, and so the layers together come to the last word on each key. -/

namespace Passage

namespace RenderSettings
open Layer

/-! ## What a document says -/

/-- What a value says about the settings that is put at the end of a path inside their table:
entries of the table. None if it goes into a setting, or if no table is left. -/
def saidInside? : List Step → Toml → Option Toml.Entries
  | [], .table _ es => some es
  | [.key key], v => some [(key, v)]
  | .key key :: _ :: _, _ => if lowerKey key ∈ keys then none else some []
  | _, _ => none

/-- What a value says about the settings that is put at the end of a path. None also if the
path counts places from an array's end, where the layers below may not have them. -/
def saidAt? : List Step → Toml → Option Toml.Entries
  | .key name :: path, v =>
    if !isForward path then none
    else if lowerKey name = tableKey then saidInside? path v
    else some []
  | _, _ => none

/-- What an entry at the top of a document says about the settings. -/
def said? (e : List Char × Toml) : Option Toml.Entries :=
  saidAt? (pathOf e.1) e.2

/-- Whether an entry at the top of a document gives settings no tables and leaves their table
a table. -/
def isSetting (e : List Char × Toml) : Bool :=
  match said? e with
  | some said => said.all fun s => isWhole s.2 || !keys.contains (lowerKey s.1)
  | none => false

/-- A document whose table of settings gives each of its keys a scalar or an array, if it
gives it anything. It may hold whatever else. -/
def isDocument (es : Toml.Entries) : Bool :=
  es.all isSetting

def entrySets? (key : List Char) (e : List Char × Toml) : Option Toml :=
  (said? e).bind (lastSome? (valueOf? key))

/-- The value that a document gives a key, the last one if it gives it several. -/
def sets? (key : List Char) (es : Toml.Entries) : Option Toml :=
  lastSome? (entrySets? key) es

theorem lookup?_put?_saidInside {base : Option Toml} {v w : Toml} {path : List Step}
    {said : Toml.Entries} (hpath : path ≠ []) (hput : put? base v path = some w)
    (hsaid : saidInside? path v = some said)
    (hwhole : ∀ s ∈ said, lowerKey s.1 ∈ keys → isWhole s.2 = true) {key : List Char}
    (hkey : key ∈ keys) :
    Toml.lookup? (entriesOf (some w)) key =
      (lastSome? (valueOf? key) said).or (Toml.lookup? (entriesOf base) key) := by
  revert hsaid
  fun_cases saidInside? path v with
  | case1 => exact absurd rfl hpath
  | case2 name =>
    intro hsaid
    cases hsaid
    rw [lookup?_put?_key hput, lastSome?_singleton, valueOf?]
    by_cases hname : lowerKey name = key
    · have hv : isWhole v = true := hwhole _ List.mem_cons_self (hname ▸ hkey)
      rw [if_pos hname, if_pos hname, overlay_of_isWhole hv]
      rfl
    · rw [if_neg hname, if_neg hname]
      rfl
  | case3 =>
    intro hsaid
    cases hsaid
  | case4 name _ _ _ hname =>
    intro hsaid
    cases hsaid
    exact lookup?_put?_of_ne hput fun h => hname (h ▸ hkey)
  | case5 =>
    intro hsaid
    cases hsaid

/-- The step for one entry at the top of a layer: it is put where its path ends, and the table
of the settings has in it what the entry says, over what it had. -/
theorem exists_put?_saidAt {path : List Step} {v : Toml} {said : Toml.Entries}
    (hsaid : saidAt? path v = some said)
    (hwhole : ∀ s ∈ said, lowerKey s.1 ∈ keys → isWhole s.2 = true) (es : Toml.Entries) :
    ∃ t, put? (some (.table .defined es)) v path = some t ∧
      ∀ key ∈ keys, valueIn? (entriesOf (some t)) key =
        (lastSome? (valueOf? key) said).or (valueIn? es key) := by
  revert hsaid
  fun_cases saidAt? path v with
  | case1 =>
    intro hsaid
    cases hsaid
  | case2 name path v hforward hname =>
    intro hsaid
    have hpath : isForward (.key name :: path) = true := by simpa [isForward] using hforward
    obtain ⟨t, ht⟩ := exists_put? hpath (some (.table .defined es)) v
    refine ⟨t, ht, fun key hkey => ?_⟩
    cases path with
    | nil =>
      obtain ⟨o, rfl⟩ : ∃ o, v = .table o said := by
        cases v <;> cases hsaid
        exact ⟨_, rfl⟩
      rw [valueIn?, lookup?_put?_key ht, if_pos hname, entriesOf_overlay_table]
      exact lookup?_overlayAll fun e he h => hwhole e he (h ▸ hkey)
    | cons s path =>
      obtain ⟨w, hput, hw⟩ := put?_key_cons (List.cons_ne_nil s path) ht
      rw [valueIn?, hw, if_pos hname,
        lookup?_put?_saidInside (List.cons_ne_nil s path) hput hsaid hwhole hkey, hname]
      rfl
  | case3 name path v hforward hname =>
    intro hsaid
    cases hsaid
    have hpath : isForward (.key name :: path) = true := by simpa [isForward] using hforward
    obtain ⟨t, ht⟩ := exists_put? hpath (some (.table .defined es)) v
    refine ⟨t, ht, fun key _ => ?_⟩
    rw [valueIn?, lookup?_put?_of_ne ht hname]
    rfl
  | case4 =>
    intro hsaid
    cases hsaid

/-! ## Layers in their order -/

/-- A run of steps that each keep to one last word for every key, unless they say nothing
about it, keeps to the last word of all. -/
theorem exists_foldlM_last {σ α : Type} (step : σ → α → Option σ)
    (view : σ → List Char → Option Toml) (write? : List Char → α → Option Toml) {l : List α}
    (h : ∀ a ∈ l, ∀ s, ∃ t, step s a = some t ∧
      ∀ key ∈ keys, view t key = (write? key a).or (view s key)) (s : σ) :
    ∃ t, l.foldlM step s = some t ∧
      ∀ key ∈ keys, view t key = (lastSome? (write? key) l).or (view s key) := by
  induction l generalizing s with
  | nil => exact ⟨s, rfl, fun key _ => rfl⟩
  | cons a l ih =>
    obtain ⟨t, hstep, ht⟩ := h a List.mem_cons_self s
    obtain ⟨u, hrun, hu⟩ := ih (fun b hb => h b (List.mem_cons_of_mem _ hb)) t
    refine ⟨u, by rw [List.foldlM_cons, hstep]; exact hrun, fun key hkey => ?_⟩
    rw [hu key hkey, ht key hkey, lastSome?_cons, Option.or_assoc]

theorem exists_lay? {doc : Toml.Entries} (h : isDocument doc = true) (es : Toml.Entries) :
    ∃ es', lay? es doc = some es' ∧
      ∀ key ∈ keys, valueIn? es' key = (sets? key doc).or (valueIn? es key) := by
  refine exists_foldlM_last _ valueIn? entrySets? (fun e he es => ?_) es
  have hset : isSetting e = true := List.all_eq_true.1 h e he
  rw [isSetting] at hset
  split at hset
  · rename_i said hsaid
    have hwhole : ∀ s ∈ said, lowerKey s.1 ∈ keys → isWhole s.2 = true := by
      intro s hs hkey
      simpa [hkey] using List.all_eq_true.1 hset s hs
    obtain ⟨t, ht, hvalue⟩ := exists_put?_saidAt hsaid hwhole es
    refine ⟨entriesOf (some t), by rw [ht]; rfl, fun key hkey => ?_⟩
    rw [hvalue key hkey, entrySets?, hsaid]
    rfl
  · cases hset

end RenderSettings

namespace Override
open RenderSettings Layer

def sets? (key : List Char) (o : Override) : Option Toml :=
  if o.key = key then some o.value else none

theorem key_mem_keys (o : Override) : o.key ∈ keys := by
  cases o <;> simp [key, keys]

theorem lowerKey_key (o : Override) : lowerKey o.key = o.key := by
  have hlower : ∀ key ∈ keys, lowerKey key = key := by decide
  exact hlower _ o.key_mem_keys

theorem isWhole_value (o : Override) : isWhole o.value = true := by
  cases o <;> rfl

theorem valueIn?_overlayAll_entries (o : Override) (es : Toml.Entries) (key : List Char) :
    valueIn? (overlayAll es o.entries) key = (o.sets? key).or (valueIn? es key) := by
  have htable : lowerKey tableKey = tableKey := by decide
  have hsays : valueOf? key (o.key, o.value) = o.sets? key := by
    rw [valueOf?, lowerKey_key, sets?]
  rw [Override.entries, overlayAll, overlayAll, valueIn?, htable, Toml.lookup?_assign, if_pos rfl,
    entriesOf_overlay_table, lookup?_overlayAll fun e he _ => ?_, lastSome?_singleton, hsays]
  · rfl
  · rw [List.mem_singleton.1 he]
    exact o.isWhole_value

end Override

/-! ## Files -/

section Files
open RenderSettings Layer

/-- The value that a file gives a key; none if it is not there or cannot be read. -/
def fileSets? (key : List Char) (file : Option (List Char)) : Option Toml :=
  (file.bind Toml.readDocument?).bind (RenderSettings.sets? key)

/-- Settings files lie over the defaults, and overrides over them, so that for every key the
last override counts, else the last file, else the default. -/
theorem exists_layers? {files : List (Option (List Char))}
    (hread : ∀ file ∈ files, file.bind Toml.readDocument? ≠ none)
    (hdocs : ∀ file ∈ files, ∀ doc, file.bind Toml.readDocument? = some doc →
      isDocument doc = true) (overrides : List Override) :
    ∃ es, layers? files overrides = some es ∧ ∀ key ∈ keys, valueIn? es key =
      (lastSome? (Override.sets? key) overrides).or
        ((lastSome? (fileSets? key) files).or (valueIn? defaults key)) := by
  have hlay : ∀ doc ∈ files.filterMap (·.bind Toml.readDocument?), ∀ es, ∃ es',
      lay? es doc = some es' ∧
        ∀ key ∈ keys, valueIn? es' key = (RenderSettings.sets? key doc).or (valueIn? es key) := by
    intro doc hdoc
    obtain ⟨file, hfile, hread⟩ := List.mem_filterMap.1 hdoc
    exact exists_lay? (hdocs file hfile doc hread)
  obtain ⟨below, hbelow, hfiles⟩ := exists_foldlM_last lay? valueIn? _ hlay defaults
  obtain ⟨es, hes, hover⟩ := exists_foldlM_last
    (fun es (o : Override) => some (overlayAll es o.entries)) valueIn? Override.sets?
    (fun o (_ : o ∈ overrides) es =>
      ⟨_, rfl, fun key _ => o.valueIn?_overlayAll_entries es key⟩) below
  refine ⟨es, ?_, fun key hkey => ?_⟩
  · rw [layers?, mapM_eq_some_filterMap hread, ← hes]
    simp only [Option.bind_eq_bind, Option.bind_some, hbelow]
    exact List.foldlM_pure.symm
  · rw [hover key hkey, hfiles key hkey, lastSome?_filterMap]
    rfl

theorem layers?_eq_none {files : List (Option (List Char))} {file : Option (List Char)}
    (hfile : file ∈ files) (h : file.bind Toml.readDocument? = none) (overrides : List Override) :
    layers? files overrides = none := by
  rw [layers?, mapM_eq_none hfile h]
  rfl

end Files

end Passage
