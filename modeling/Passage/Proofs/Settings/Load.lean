import Mathlib.Data.List.Perm.Basic
import Mathlib.Data.List.Nodup
import Passage.Proofs.Settings.Said
import Passage.Proofs.Settings.Values

/-! Loading settings after any calls on a loader. For each key by itself the last word counts:
an override before any file, a later one of either kind before an earlier one, the default
where nothing is said. Only these values are converted, so that loading fails by them or by a
file that cannot be read, and by nothing else. -/

namespace Passage

namespace LoaderCall
open RenderSettings Layer

def file? : LoaderCall → Option (Option (List Char))
  | file text => some text
  | set _ => none

def override? : LoaderCall → Option Override
  | file _ => none
  | set o => some o

def overrides? (key : List Char) (c : LoaderCall) : Option Toml :=
  c.override?.bind (Override.sets? key)

def files? (key : List Char) (c : LoaderCall) : Option Toml :=
  c.file?.bind (fileSets? key)

/-- The value in effect for a key after calls: that of its last override, else that of the
last file which sets it, else the default. -/
def effective? (calls : List LoaderCall) (key : List Char) : Option Toml :=
  (lastSome? (overrides? key) calls).or
    ((lastSome? (files? key) calls).or (valueIn? defaults key))

def document? : LoaderCall → Option Toml.Entries
  | file text => text.bind Toml.readDocument?
  | set _ => none

/-- Some file is missing or holds no document. -/
def Unreadable (calls : List LoaderCall) : Prop :=
  ∃ c ∈ calls, c.file?.isSome = true ∧ c.document? = none

/-- Every document gives settings scalars and arrays. -/
def AreSettings (calls : List LoaderCall) : Prop :=
  ∀ c ∈ calls, ∀ doc ∈ c.document?, isDocument doc = true

instance (calls : List LoaderCall) : Decidable (Unreadable calls) :=
  inferInstanceAs (Decidable (∃ c ∈ calls, c.file?.isSome = true ∧ c.document? = none))

instance (calls : List LoaderCall) : Decidable (AreSettings calls) :=
  inferInstanceAs (Decidable (∀ c ∈ calls, ∀ doc ∈ c.document?, isDocument doc = true))

end LoaderCall

namespace SettingsLoader
open RenderSettings Layer LoaderCall

theorem foldl_call_files (calls : List LoaderCall) (l : SettingsLoader) :
    (calls.foldl call l).files = l.files ++ calls.filterMap file? := by
  induction calls generalizing l with
  | nil => exact (List.append_nil _).symm
  | cons c calls ih =>
    rw [List.foldl_cons, ih]
    cases c with
    | file text => exact List.append_assoc l.files [text] _
    | set o => rfl

theorem files_ofCalls (calls : List LoaderCall) :
    (ofCalls calls).files = calls.filterMap file? :=
  foldl_call_files calls {}

/-- The override that a call sets takes the place of the one of its key and of no other. -/
theorem lastSome?_overrides_call (l : SettingsLoader) (c : LoaderCall) (key : List Char) :
    lastSome? (Override.sets? key) (l.call c).overrides =
      (c.overrides? key).or (lastSome? (Override.sets? key) l.overrides) := by
  cases c with
  | file text => rfl
  | set o =>
    rw [call, lastSome?_append, lastSome?_singleton]
    by_cases hkey : o.key = key
    · simp [overrides?, override?, Override.sets?, hkey]
    · have hothers : (l.overrides.filter (·.key ≠ o.key)).filterMap (Override.sets? key) =
          l.overrides.filterMap (Override.sets? key) := by
        rw [List.filterMap_filter]
        refine List.filterMap_congr fun p _ => ?_
        by_cases hp : p.key = key
        · simp [hp, Ne.symm hkey]
        · simp [Override.sets?, hp]
      rw [lastSome?, hothers]
      rfl

theorem lastSome?_overrides_ofCalls (calls : List LoaderCall) (key : List Char) :
    lastSome? (Override.sets? key) (ofCalls calls).overrides =
      lastSome? (overrides? key) calls := by
  have hfold : ∀ l : SettingsLoader,
      lastSome? (Override.sets? key) (calls.foldl call l).overrides =
        (lastSome? (overrides? key) calls).or (lastSome? (Override.sets? key) l.overrides) := by
    induction calls with
    | nil => exact fun l => rfl
    | cons c calls ih =>
      intro l
      rw [List.foldl_cons, ih, lastSome?_overrides_call, lastSome?_cons, Option.or_assoc]
  rw [ofCalls, hfold]
  exact Option.or_none

/-- A loader holds one override of a key. -/
theorem nodup_overrides_ofCalls (calls : List LoaderCall) :
    ((ofCalls calls).overrides.map Override.key).Nodup := by
  have hfold : ∀ l : SettingsLoader, (l.overrides.map Override.key).Nodup →
      ((calls.foldl call l).overrides.map Override.key).Nodup := by
    induction calls with
    | nil => exact fun l hl => hl
    | cons c calls ih =>
      intro l hl
      refine ih (l.call c) ?_
      cases c with
      | file text => exact hl
      | set o =>
        rw [call, List.map_append]
        refine List.Nodup.append ?_ (List.nodup_singleton o.key) ?_
        · exact hl.sublist (List.filter_sublist.map Override.key)
        · refine List.disjoint_singleton.2 fun hmem => ?_
          obtain ⟨p, hp, hkey⟩ := List.mem_map.1 hmem
          simp [hkey] at hp
  exact hfold {} List.nodup_nil

/-- Where every key is overridden once, the order of the overrides does not matter. -/
theorem lastSome?_overrides_perm {os ps : List Override} (h : os.Perm ps)
    (hnodup : (ps.map Override.key).Nodup) (key : List Char) :
    lastSome? (Override.sets? key) os = lastSome? (Override.sets? key) ps := by
  have hperm := h.filterMap (Override.sets? key)
  have hone : (ps.filterMap (Override.sets? key)).Pairwise fun _ _ => False := by
    refine (List.pairwise_map.1 hnodup).filterMap _ fun o p hne v hv w hw => hne ?_
    simp only [Override.sets?, Option.ite_none_right_eq_some] at hv hw
    rw [hv.1, hw.1]
  unfold lastSome?
  cases hps : ps.filterMap (Override.sets? key) with
  | nil => rw [hps] at hperm; rw [hperm.eq_nil]
  | cons v vs =>
    rw [hps] at hperm hone
    cases vs with
    | nil => rw [List.perm_singleton.1 hperm]
    | cons w vs => exact (List.rel_of_pairwise_cons hone List.mem_cons_self).elim

/-! ## The values in effect -/

theorem effective?_isSome (calls : List LoaderCall) {key : List Char} (hkey : key ∈ keys) :
    (effective? calls key).isSome = true := by
  have hdefault : ∀ key ∈ keys, (valueIn? defaults key).isSome = true := by decide
  rw [effective?, Option.isSome_or, Option.isSome_or, hdefault key hkey, Bool.or_true, Bool.or_true]

theorem unreadable_iff {calls : List LoaderCall} :
    Unreadable calls ↔ ∃ f ∈ calls.filterMap file?, f.bind Toml.readDocument? = none := by
  constructor
  · rintro ⟨c, hc, hfile, hdoc⟩
    cases c with
    | set o => cases hfile
    | file f => exact ⟨f, List.mem_filterMap.2 ⟨_, hc, rfl⟩, hdoc⟩
  · rintro ⟨f, hf, hread⟩
    obtain ⟨c, hc, hfile⟩ := List.mem_filterMap.1 hf
    cases c with
    | set o => cases hfile
    | file _ =>
      cases hfile
      exact ⟨_, hc, rfl, hread⟩

/-- The layers of files that calls give, under overrides with the last words of the calls. -/
theorem exists_layers?_effective {calls : List LoaderCall} (hcalls : AreSettings calls)
    (hread : ¬ Unreadable calls) {os : List Override}
    (hos : ∀ key ∈ keys, lastSome? (Override.sets? key) os = lastSome? (overrides? key) calls) :
    ∃ es, layers? (calls.filterMap file?) os = some es ∧
      ∀ key ∈ keys, valueIn? es key = effective? calls key := by
  have hdocs : ∀ f ∈ calls.filterMap file?, ∀ doc, f.bind Toml.readDocument? = some doc →
      isDocument doc = true := by
    intro f hf doc hdoc
    obtain ⟨c, hc, hfile⟩ := List.mem_filterMap.1 hf
    cases c with
    | set o => cases hfile
    | file _ =>
      cases hfile
      exact hcalls _ hc doc hdoc
  obtain ⟨es, hes, hvalue⟩ := exists_layers?
    (fun f hf hnone => hread (unreadable_iff.2 ⟨f, hf, hnone⟩)) hdocs os
  refine ⟨es, hes, fun key hkey => ?_⟩
  rw [hvalue key hkey, hos key hkey, lastSome?_filterMap]
  rfl

def converted? (calls : List LoaderCall) : Option RenderSettings := do
  ofValues? (← effective? calls renderVersesKey) (← effective? calls expectedVersesKey)
    (← effective? calls suppressLeadingHeadingKey) (← effective? calls breakBeforeVersesKey)

theorem bind_ofEntries?_eq {calls : List LoaderCall} (hcalls : AreSettings calls)
    (hread : ¬ Unreadable calls) {os : List Override}
    (hos : ∀ key ∈ keys, lastSome? (Override.sets? key) os = lastSome? (overrides? key) calls) :
    (layers? (calls.filterMap file?) os).bind ofEntries? = converted? calls := by
  obtain ⟨es, hes, hvalue⟩ := exists_layers?_effective hcalls hread hos
  have hrender := hvalue renderVersesKey (by decide)
  rw [hes, Option.bind_some, ofEntries?_eq (hrender ▸ effective?_isSome calls (by decide)), hrender,
    hvalue expectedVersesKey (by decide), hvalue suppressLeadingHeadingKey (by decide),
    hvalue breakBeforeVersesKey (by decide)]
  rfl

/-- A loader comes to one outcome from the files in their order and the last override of each
key, however these came to it. -/
theorem loadSettings_congr {calls : List LoaderCall} (hcalls : AreSettings calls)
    {os ps : List Override}
    (hos : ∀ key ∈ keys, lastSome? (Override.sets? key) os = lastSome? (overrides? key) calls)
    (hps : ∀ key ∈ keys, lastSome? (Override.sets? key) ps = lastSome? (overrides? key) calls) :
    loadSettings (calls.filterMap file?) os = loadSettings (calls.filterMap file?) ps := by
  by_cases hread : Unreadable calls
  · obtain ⟨f, hf, hnone⟩ := unreadable_iff.1 hread
    rw [loadSettings, layers?_eq_none hf hnone, loadSettings, layers?_eq_none hf hnone]
  · rw [loadSettings, bind_ofEntries?_eq hcalls hread hos, loadSettings,
      bind_ofEntries?_eq hcalls hread hps]

theorem load_eq (calls : List LoaderCall) :
    (ofCalls calls).load = loadSettings (calls.filterMap file?) (ofCalls calls).overrides := by
  rw [load, files_ofCalls]

theorem load_eq_ok_iff {calls : List LoaderCall} (hcalls : AreSettings calls)
    {s : RenderSettings} :
    (ofCalls calls).load = .ok s ↔ ¬ Unreadable calls ∧ converted? calls = some s := by
  rw [load_eq, loadSettings]
  by_cases hread : Unreadable calls
  · obtain ⟨f, hf, hnone⟩ := unreadable_iff.1 hread
    simp [layers?_eq_none hf hnone, hread]
  · rw [bind_ofEntries?_eq hcalls hread fun key _ => lastSome?_overrides_ofCalls calls key]
    cases converted? calls <;> simp [hread]

theorem load_eq_error_iff {calls : List LoaderCall} (hcalls : AreSettings calls) :
    (∃ e, (ofCalls calls).load = .error e) ↔ Unreadable calls ∨ converted? calls = none := by
  have hok := fun s => load_eq_ok_iff hcalls (s := s)
  cases hload : (ofCalls calls).load with
  | ok s =>
    obtain ⟨hread, hs⟩ := (hok s).1 hload
    simp [hread, hs]
  | error e =>
    refine ⟨fun _ => ?_, fun _ => ⟨e, rfl⟩⟩
    by_cases hread : Unreadable calls
    · exact .inl hread
    · refine .inr (Option.eq_none_iff_forall_not_mem.2 fun s hs => ?_)
      rw [(hok s).2 ⟨hread, hs⟩] at hload
      cases hload

/-- No key is without a value in effect. -/
theorem exists_converted?_eq (calls : List LoaderCall) :
    ∃ a b c d, effective? calls renderVersesKey = some a ∧
      effective? calls expectedVersesKey = some b ∧
      effective? calls suppressLeadingHeadingKey = some c ∧
      effective? calls breakBeforeVersesKey = some d ∧
      converted? calls = ofValues? a b c d := by
  have hsome : ∀ key ∈ keys, ∃ v, effective? calls key = some v := fun key hkey =>
    Option.isSome_iff_exists.1 (effective?_isSome calls hkey)
  obtain ⟨a, ha⟩ := hsome renderVersesKey (by decide)
  obtain ⟨b, hb⟩ := hsome expectedVersesKey (by decide)
  obtain ⟨c, hc⟩ := hsome suppressLeadingHeadingKey (by decide)
  obtain ⟨d, hd⟩ := hsome breakBeforeVersesKey (by decide)
  refine ⟨a, b, c, d, ha, hb, hc, hd, ?_⟩
  rw [converted?, ha, hb, hc, hd]
  rfl

theorem converted?_eq_some_iff {calls : List LoaderCall} {s : RenderSettings} :
    converted? calls = some s ↔
      (effective? calls renderVersesKey).bind Convert.toBool? = some s.renderVerses ∧
      (effective? calls expectedVersesKey).bind Convert.toNumbers? = some s.expectedVerses ∧
      (effective? calls suppressLeadingHeadingKey).bind Convert.toBool? =
        some s.suppressLeadingHeading ∧
      (effective? calls breakBeforeVersesKey).bind Convert.toBool? =
        some s.breakBeforeVerses := by
  obtain ⟨a, b, c, d, ha, hb, hc, hd, h⟩ := exists_converted?_eq calls
  rw [h, ha, hb, hc, hd]
  exact ofValues?_eq_some_iff

theorem converted?_eq_none_iff {calls : List LoaderCall} :
    converted? calls = none ↔
      (effective? calls renderVersesKey).bind Convert.toBool? = none ∨
      (effective? calls expectedVersesKey).bind Convert.toNumbers? = none ∨
      (effective? calls suppressLeadingHeadingKey).bind Convert.toBool? = none ∨
      (effective? calls breakBeforeVersesKey).bind Convert.toBool? = none := by
  obtain ⟨a, b, c, d, ha, hb, hc, hd, h⟩ := exists_converted?_eq calls
  rw [h, ha, hb, hc, hd]
  exact ofValues?_eq_none_iff

/-! ## Keys apart from each other -/

theorem raw?_eq {calls : List LoaderCall} (hcalls : AreSettings calls)
    (hread : ¬ Unreadable calls) {key : List Char} (hkey : key ∈ keys) :
    (ofCalls calls).raw? key = effective? calls key := by
  obtain ⟨es, hes, hvalue⟩ := exists_layers?_effective hcalls hread
    fun key _ => lastSome?_overrides_ofCalls calls key
  rw [raw?, files_ofCalls, hes]
  exact hvalue key hkey

theorem effective?_append_cons {before after : List LoaderCall} {c : LoaderCall}
    {key : List Char} (hover : c.overrides? key = none) (hfile : c.files? key = none) :
    effective? (before ++ c :: after) key = effective? (before ++ after) key := by
  simp only [effective?, lastSome?_append, lastSome?_cons, hover, hfile, Option.or_none]

/-- A last override is in effect whatever the files say. -/
theorem effective?_of_override {before after : List LoaderCall} {o : Override}
    (hafter : ∀ c ∈ after, c.overrides? o.key = none) :
    effective? (before ++ .set o :: after) o.key = some o.value := by
  have hset : (LoaderCall.set o).overrides? o.key = some o.value := if_pos rfl
  rw [effective?, lastSome?_append, lastSome?_cons, lastSome?_eq_none hafter, hset]
  rfl

/-- What loading comes to after any calls on a loader whose files give settings. The raw values
are the last words on their keys; loading fails by a file or by one of these, and where it does
not, they are the settings and only the bounds may still be refused. Only the order of the
files and the last override of each key matter, a call leaves the keys alone that it does not
give, and verse numbers come back as they were set. -/
theorem load_last_words (calls : List LoaderCall) (hcalls : AreSettings calls) :
    (¬ Unreadable calls → ∀ key ∈ keys, (ofCalls calls).raw? key = effective? calls key ∧
      (effective? calls key).isSome = true) ∧
    ((∃ e, (ofCalls calls).load = .error e) ↔ Unreadable calls ∨
      (effective? calls renderVersesKey).bind Convert.toBool? = none ∨
      (effective? calls expectedVersesKey).bind Convert.toNumbers? = none ∨
      (effective? calls suppressLeadingHeadingKey).bind Convert.toBool? = none ∨
      (effective? calls breakBeforeVersesKey).bind Convert.toBool? = none) ∧
    (∀ s, (ofCalls calls).load = .ok s →
      (effective? calls renderVersesKey).bind Convert.toBool? = some s.renderVerses ∧
      (effective? calls expectedVersesKey).bind Convert.toNumbers? = some s.expectedVerses ∧
      (effective? calls suppressLeadingHeadingKey).bind Convert.toBool? =
        some s.suppressLeadingHeading ∧
      (effective? calls breakBeforeVersesKey).bind Convert.toBool? = some s.breakBeforeVerses ∧
      ((∃ e, s.toConfig = .error e) ↔ 2 < s.expectedVerses.length ∨
        ∃ first last, s.expectedVerses = [first, last] ∧ last < first)) ∧
    (∀ others : List LoaderCall, others.filterMap file? = calls.filterMap file? →
      (∀ key ∈ keys, lastSome? (overrides? key) others = lastSome? (overrides? key) calls) →
      (ofCalls others).load = (ofCalls calls).load) ∧
    (∀ os, os.Perm (ofCalls calls).overrides →
      loadSettings (ofCalls calls).files os = (ofCalls calls).load) ∧
    (∀ before c after, calls = before ++ c :: after → ¬ Unreadable calls →
      ∀ key ∈ keys, c.overrides? key = none → c.files? key = none →
        (ofCalls calls).raw? key = (ofCalls (before ++ after)).raw? key) ∧
    (∀ before ns after, calls = before ++ .set (.expectedVerses ns) :: after →
      (∀ c ∈ after, c.overrides? expectedVersesKey = none) →
      (∀ n ∈ ns, n < VerseMarker.bound) →
      (effective? calls expectedVersesKey).bind Convert.toNumbers? = some ns ∧
        ∀ s, (ofCalls calls).load = .ok s → s.expectedVerses = ns) := by
  refine ⟨fun hread key hkey => ⟨raw?_eq hcalls hread hkey, effective?_isSome calls hkey⟩, ?_,
    ?_, ?_, ?_, ?_, ?_⟩
  · rw [load_eq_error_iff hcalls, converted?_eq_none_iff]
  · intro s hs
    obtain ⟨hr, he, hl, hb⟩ := converted?_eq_some_iff.1 ((load_eq_ok_iff hcalls).1 hs).2
    exact ⟨hr, he, hl, hb, toConfig_eq_error_iff⟩
  · intro others hfiles hover
    rw [load_eq, load_eq, hfiles]
    exact loadSettings_congr hcalls
      (fun key hkey => (lastSome?_overrides_ofCalls others key).trans (hover key hkey))
      fun key _ => lastSome?_overrides_ofCalls calls key
  · intro os hos
    rw [load_eq, files_ofCalls]
    refine loadSettings_congr hcalls (fun key _ => ?_)
      fun key _ => lastSome?_overrides_ofCalls calls key
    rw [lastSome?_overrides_perm hos (nodup_overrides_ofCalls calls) key,
      lastSome?_overrides_ofCalls]
  · rintro before c after rfl hread key hkey hover hfile
    have hsub : ∀ d ∈ before ++ after, d ∈ before ++ c :: after := fun d hd => by
      simp only [List.mem_append, List.mem_cons] at hd ⊢
      exact hd.imp_right .inr
    have hothers : AreSettings (before ++ after) := fun d hd => hcalls d (hsub d hd)
    have hreads : ¬ Unreadable (before ++ after) := fun ⟨d, hd, h⟩ => hread ⟨d, hsub d hd, h⟩
    rw [raw?_eq hcalls hread hkey, raw?_eq hothers hreads hkey,
      effective?_append_cons hover hfile]
  · rintro before ns after rfl hafter hns
    have hvalue : effective? (before ++ .set (.expectedVerses ns) :: after) expectedVersesKey =
        some (Override.expectedVerses ns).value :=
      effective?_of_override hafter
    have hback : (effective? (before ++ .set (.expectedVerses ns) :: after)
        expectedVersesKey).bind Convert.toNumbers? = some ns := by
      rw [hvalue]
      exact toNumbers?_integers hns
    refine ⟨hback, fun s hs => ?_⟩
    obtain ⟨-, hs, -⟩ := converted?_eq_some_iff.1 ((load_eq_ok_iff hcalls).1 hs).2
    exact Option.some.inj (hs.symm.trans hback)

/-- Calls in which a good value hides a bad one, a path sets a key, and the bounds are the
wrong way round. -/
def mixedCalls : List LoaderCall :=
  [.set (.expectedVerses [7]),
   .file (some "[Render]\nrender_verses = \"perhaps\"\nbreak_before_verses = \"yes\"\n".toList),
   .set (.expectedVerses [4, 2]),
   .file (some "\"render.Render_Verses\" = 0\n[other]\nexpected_verses = [[]]\n".toList),
   .set (.suppressLeadingHeading true)]

/-- The mixed calls load, and fail only once a configuration is made. -/
theorem load_last_words_mixed :
    AreSettings mixedCalls ∧
    ∃ s, (ofCalls mixedCalls).load = .ok s ∧ s = ⟨false, [4, 2], true, true⟩ ∧
      ∃ e, s.toConfig = .error e := by
  have hcalls : AreSettings mixedCalls := by decide +kernel
  obtain ⟨-, herror, hok, -⟩ := load_last_words mixedCalls hcalls
  have hr : (effective? mixedCalls renderVersesKey).bind Convert.toBool? = some false := by
    decide +kernel
  have he : (effective? mixedCalls expectedVersesKey).bind Convert.toNumbers? = some [4, 2] := by
    decide +kernel
  have hl : (effective? mixedCalls suppressLeadingHeadingKey).bind Convert.toBool? =
      some true := by
    decide +kernel
  have hb : (effective? mixedCalls breakBeforeVersesKey).bind Convert.toBool? = some true := by
    decide +kernel
  have hread : ¬ Unreadable mixedCalls := by decide +kernel
  refine ⟨hcalls, ?_⟩
  cases hload : (ofCalls mixedCalls).load with
  | error e =>
    have hfails := herror.1 ⟨e, hload⟩
    simp [hread, hr, he, hl, hb] at hfails
  | ok s =>
    obtain ⟨hrender, hexpected, hsuppress, hbefore, hconfig⟩ := hok s hload
    have hs : s = ⟨false, [4, 2], true, true⟩ := by
      obtain ⟨render, expected, suppress, before⟩ := s
      simp_all
    refine ⟨s, rfl, hs, hconfig.2 (.inr ⟨4, 2, ?_, by decide⟩)⟩
    rw [hs]

end SettingsLoader

end Passage
