import Mathlib.Data.List.Pairwise
import Passage.Proofs.Verse.Label
import Passage.Render.Config
import Passage.Tag.Scan

/-! Which verses a text exposes, told from its tags alone. A tag is accepted if its number reads
and shares no number with a tag accepted before it. Exposed are the expected numbers that no
accepted tag has, ascending, and then the accepted markers that lie inside the bounds. No two
exposed markers share a number (`exposed_apart`). -/

namespace Passage

namespace VerseMarker

instance (n : Nat) (m : VerseMarker) : Decidable (n ∈ m) :=
  inferInstanceAs (Decidable (m.first ≤ n ∧ n ≤ m.last))

/-- The markers share no number. -/
def Apart (m n : VerseMarker) : Prop :=
  ∀ k, k ∈ m → k ∉ n

theorem Apart.symm {m n : VerseMarker} (h : m.Apart n) : n.Apart m :=
  fun k hn hm => h k hm hn

theorem not_apart_self (m : VerseMarker) : ¬ m.Apart m :=
  fun h => h m.first ⟨Nat.le_refl _, m.ordered⟩ ⟨Nat.le_refl _, m.ordered⟩

theorem apart_of_meets {m n : VerseMarker} (h : ¬ m.meets n = true) : m.Apart n :=
  fun k hm hn => h (meets_iff.mpr ⟨k, hm, hn⟩)

theorem mem_single {k n : Nat} : k ∈ single n ↔ k = n := by
  constructor
  · rintro ⟨h1, h2⟩
    exact Nat.le_antisymm h2 h1
  · rintro rfl
    exact ⟨Nat.le_refl k, Nat.le_refl k⟩

theorem nodup_regions {ms : List VerseMarker} (hf : ∀ m ∈ ms, m.Fits) (ha : ms.Pairwise Apart) :
    (ms.map region).Nodup := by
  rw [List.Nodup, List.pairwise_map]
  refine ha.imp_of_mem fun {m n} hm hn h he => ?_
  have hmn := eq_of_region_eq (hf m hm) (hf n hn) he
  subst hmn
  exact not_apart_self m h

instance : Std.Symm Apart :=
  ⟨fun _ _ h => h.symm⟩

theorem eq_of_mem_of_mem {ms : List VerseMarker} (h : ms.Pairwise Apart) {m k : VerseMarker}
    (hm : m ∈ ms) (hk : k ∈ ms) {n : Nat} (hnm : n ∈ m) (hnk : n ∈ k) : m = k := by
  by_cases he : m = k
  · exact he
  · exact absurd hnk (h.forall hm hk he n hnm)

/-- Of markers that share no numbers at most one has a number. -/
theorem countP_mem {ms : List VerseMarker} (h : ms.Pairwise Apart) (n : Nat) :
    ms.countP (n ∈ ·) = if ∃ m ∈ ms, n ∈ m then 1 else 0 := by
  induction ms with
  | nil => simp
  | cons m ms ih =>
    obtain ⟨hm, hms⟩ := List.pairwise_cons.mp h
    by_cases hn : n ∈ m
    · have hrest : ¬ ∃ k ∈ ms, n ∈ k := by
        rintro ⟨k, hk, hnk⟩
        exact hm k hk n hn hnk
      simp [hn, ih hms, hrest]
    · simp [hn, ih hms]

/-- The markers accepted in a row of verse numbers, after those of `seen`. -/
def acceptFrom (seen : List VerseMarker) : List (List Char) → List VerseMarker
  | [] => []
  | cs :: rest =>
    match parse cs with
    | .error _ => acceptFrom seen rest
    | .ok m => if seen.any m.meets then acceptFrom seen rest else m :: acceptFrom (m :: seen) rest

theorem acceptFrom_apart (seen : List VerseMarker) (numbers : List (List Char)) :
    (acceptFrom seen numbers).Pairwise Apart ∧
      ∀ m ∈ acceptFrom seen numbers, m.Fits ∧ ∀ k ∈ seen, m.Apart k := by
  induction numbers generalizing seen with
  | nil => exact ⟨.nil, fun m hm => absurd hm List.not_mem_nil⟩
  | cons cs rest ih =>
    rw [acceptFrom]
    split
    · exact ih seen
    · rename_i m hp
      split
      · exact ih seen
      · rename_i hs
        obtain ⟨hpair, hall⟩ := ih (m :: seen)
        have hm : m.Fits ∧ ∀ k ∈ seen, m.Apart k := by
          refine ⟨fits_of_parse hp, fun k hk => apart_of_meets fun hmeets => hs ?_⟩
          exact List.any_eq_true.mpr ⟨k, hk, hmeets⟩
        constructor
        · refine List.pairwise_cons.mpr ⟨fun k hk => ?_, hpair⟩
          exact ((hall k hk).2 m List.mem_cons_self).symm
        · refine List.forall_mem_cons.mpr ⟨hm, fun k hk => ?_⟩
          obtain ⟨hfit, hk⟩ := hall k hk
          exact ⟨hfit, fun j hj => hk j (List.mem_cons_of_mem _ hj)⟩

theorem exists_parse_of_mem_acceptFrom {seen : List VerseMarker} {numbers : List (List Char)}
    {m : VerseMarker} (h : m ∈ acceptFrom seen numbers) : ∃ cs ∈ numbers, parse cs = .ok m := by
  induction numbers generalizing seen with
  | nil => cases h
  | cons cs rest ih =>
    have later {seen : List VerseMarker} (h : m ∈ acceptFrom seen rest) :
        ∃ ds ∈ cs :: rest, parse ds = .ok m := by
      obtain ⟨ds, hds, hparse⟩ := ih h
      exact ⟨ds, List.mem_cons_of_mem _ hds, hparse⟩
    rw [acceptFrom] at h
    split at h
    · exact later h
    · rename_i k hk
      split at h
      · exact later h
      · rcases List.mem_cons.mp h with rfl | h
        · exact ⟨cs, List.mem_cons_self, hk⟩
        · exact later h

end VerseMarker

def verseNumbers (text : List Char) : List (List Char) :=
  (Tag.Pattern.verse.matches text).map fun m => ((m.group? 0).map (Text.slice text)).getD []

/-- The markers of the accepted verse tags of a text, in order. -/
def acceptedVerses (text : List Char) : List VerseMarker :=
  VerseMarker.acceptFrom [] (verseNumbers text)

namespace ExpectedVerses

/-- The expected numbers that no marker of a list has, ascending. -/
def absent (e : ExpectedVerses) (ms : List VerseMarker) : List Nat :=
  match e.bounds? with
  | none => []
  | some (lo, hi) => (List.range' lo (hi + 1 - lo)).filter fun n => ∀ m ∈ ms, n ∉ m

theorem missing_eq_absent (e : ExpectedVerses) {found : VerseSet} {ms : List VerseMarker}
    (h : ∀ n, n ∈ found ↔ ∃ m ∈ ms, n ∈ m) : e.missing found = e.absent ms := by
  cases hb : e.bounds? with
  | none => simp only [missing, absent, hb]
  | some bounds =>
    simp only [missing, absent, hb]
    refine List.filter_congr fun n _ => ?_
    rw [Bool.eq_iff_iff, decide_eq_true_iff, Bool.not_eq_true', ← Bool.not_eq_true,
      VerseSet.contains_iff, h n]
    exact ⟨fun hn m hm hnm => hn ⟨m, hm, hnm⟩, fun hn ⟨m, hm, hnm⟩ => hn m hm hnm⟩

theorem mem_absent {e : ExpectedVerses} {ms : List VerseMarker} {n : Nat} :
    n ∈ e.absent ms ↔
      (∃ lo hi, e.bounds? = some (lo, hi) ∧ lo ≤ n ∧ n ≤ hi) ∧ ∀ m ∈ ms, n ∉ m := by
  rw [absent]
  split
  · rename_i h
    simp [h]
  · rename_i lo hi h
    simp only [List.mem_filter, List.mem_range'_1, h, decide_eq_true_eq, Option.some.injEq,
      Prod.mk.injEq]
    constructor
    · rintro ⟨⟨h1, h2⟩, h3⟩
      exact ⟨⟨lo, hi, ⟨rfl, rfl⟩, h1, by omega⟩, h3⟩
    · rintro ⟨⟨_, _, ⟨rfl, rfl⟩, h1, h2⟩, h3⟩
      exact ⟨⟨h1, by omega⟩, h3⟩

theorem absent_apart (e : ExpectedVerses) (ms : List VerseMarker) :
    ((e.absent ms).map VerseMarker.single).Pairwise VerseMarker.Apart := by
  rw [List.pairwise_map, absent]
  split
  · exact .nil
  · refine ((List.nodup_range' ..).filter _).imp fun {a b} hab k ha hb => ?_
    rw [VerseMarker.mem_single] at ha hb
    exact hab (ha.symm.trans hb)

theorem admits_iff {e : ExpectedVerses} {lo hi : Nat} (h : e.bounds? = some (lo, hi))
    (m : VerseMarker) : e.admits m = true ↔ lo ≤ m.first ∧ m.last ≤ hi := by
  have := m.ordered
  simp only [admits, h, Bool.and_eq_true, decide_eq_true_eq]
  omega

end ExpectedVerses

/-- The markers that a text with these accepted ones exposes. -/
def exposed (config : RenderConfig) (ms : List VerseMarker) : List VerseMarker :=
  if config.renderVerses && config.verseHandler then
    (config.expected.absent ms).map .single ++ ms.filter config.expected.admits
  else []

theorem exposed_apart (config : RenderConfig) {ms : List VerseMarker}
    (h : ms.Pairwise VerseMarker.Apart) : (exposed config ms).Pairwise VerseMarker.Apart := by
  rw [exposed]
  split
  · refine List.pairwise_append.mpr ⟨ExpectedVerses.absent_apart _ _, h.filter _, ?_⟩
    rintro k hk m hm
    obtain ⟨n, hn, rfl⟩ := List.mem_map.mp hk
    intro j hj
    rw [VerseMarker.mem_single] at hj
    subst hj
    exact (ExpectedVerses.mem_absent.mp hn).2 m (List.mem_filter.mp hm).1
  · exact .nil

theorem exposed_fits {config : RenderConfig} (hb : config.expected.Fits) {ms : List VerseMarker}
    (h : ∀ m ∈ ms, m.Fits) : ∀ m ∈ exposed config ms, m.Fits := by
  rw [exposed]
  split
  · intro m hm
    rcases List.mem_append.mp hm with hm | hm
    · obtain ⟨n, hn, rfl⟩ := List.mem_map.mp hm
      obtain ⟨⟨lo, hi, he, -, hle⟩, -⟩ := ExpectedVerses.mem_absent.mp hn
      exact Nat.lt_of_le_of_lt hle (hb lo hi he)
    · exact h m (List.mem_filter.mp hm).1
  · exact fun m hm => absurd hm List.not_mem_nil

theorem exposed_within {config : RenderConfig} {lo hi : Nat}
    (hb : config.expected.bounds? = some (lo, hi)) {ms : List VerseMarker} :
    ∀ m ∈ exposed config ms, lo ≤ m.first ∧ m.last ≤ hi := by
  rw [exposed]
  split
  · intro m hm
    rcases List.mem_append.mp hm with hm | hm
    · obtain ⟨n, hn, rfl⟩ := List.mem_map.mp hm
      obtain ⟨⟨_, _, he, hlo, hhi⟩, -⟩ := ExpectedVerses.mem_absent.mp hn
      rw [hb] at he
      cases he
      exact ⟨hlo, hhi⟩
    · exact (ExpectedVerses.admits_iff hb m).mp (List.mem_filter.mp hm).2
  · exact fun m hm => absurd hm List.not_mem_nil

end Passage
