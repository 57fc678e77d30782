import Passage.Verse.Marker

/-! Sets of verse numbers as disjoint spans in ascending order, so a wide range costs one
span and the set does not depend on the order of insertion. A marker is inserted only
if it shares no number with the set. -/

namespace Passage

/-- Verse numbers, held as disjoint ascending spans. -/
structure VerseSet where
  spans : List VerseMarker
  ascending : spans.Pairwise fun m n => m.last < n.first
deriving DecidableEq

namespace VerseSet

def empty : VerseSet := ⟨[], .nil⟩

instance : EmptyCollection VerseSet := ⟨empty⟩

instance : Inhabited VerseSet := ⟨empty⟩

def isEmpty (s : VerseSet) : Bool :=
  s.spans.isEmpty

/-- The last span that starts at or before a number. -/
def lastUpTo? (s : VerseSet) (n : Nat) : Option VerseMarker :=
  (s.spans.filter (·.first ≤ n)).getLast?

/-- Whether the marker shares a number with the set: of the spans that start at or before the
marker's end the last one reaches furthest. -/
def overlaps (s : VerseSet) (m : VerseMarker) : Bool :=
  (s.lastUpTo? m.last).any (m.first ≤ ·.last)

def contains (s : VerseSet) (n : Nat) : Bool :=
  s.overlaps (.single n)

theorem overlaps_eq_any (s : VerseSet) (m : VerseMarker) :
    s.overlaps m = s.spans.any m.meets := by
  rw [Bool.eq_iff_iff, overlaps, Option.any_eq_true, List.any_eq_true]
  simp only [lastUpTo?, decide_eq_true_eq]
  constructor
  · rintro ⟨k, hk, hlast⟩
    obtain ⟨hmem, hfirst⟩ := List.mem_filter.mp (List.mem_of_getLast? hk)
    have hmeets : m.meets k = true := by
      simpa [VerseMarker.meets, hlast] using hfirst
    exact ⟨k, hmem, hmeets⟩
  · rintro ⟨k, hmem, hmeets⟩
    simp only [VerseMarker.meets, Bool.and_eq_true, decide_eq_true_eq] at hmeets
    have hk : k ∈ s.spans.filter (·.first ≤ m.last) := by
      simpa [hmem] using hmeets.2
    obtain ⟨l, hl⟩ := Option.ne_none_iff_exists'.mp fun hnone =>
      List.ne_nil_of_mem hk (List.getLast?_eq_none_iff.mp hnone)
    refine ⟨l, hl, ?_⟩
    -- Any other span that starts in time ends before the last one starts.
    obtain ⟨before, hbefore⟩ := List.getLast?_eq_some_iff.mp hl
    have hpair := s.ascending.filter (·.first ≤ m.last)
    rw [hbefore] at hk hpair
    have := l.ordered
    rcases List.mem_append.mp hk with hk | hk
    · have := (List.pairwise_append.mp hpair).2.2 k hk l List.mem_cons_self
      omega
    · rw [← List.mem_singleton.mp hk]
      exact hmeets.1

/-- Puts a span before the first one that starts later. -/
def place (m : VerseMarker) : List VerseMarker → List VerseMarker
  | [] => [m]
  | n :: rest => if m.first < n.first then m :: n :: rest else n :: place m rest

theorem mem_place {m n : VerseMarker} {l : List VerseMarker} :
    n ∈ place m l ↔ n = m ∨ n ∈ l := by
  induction l with
  | nil => simp [place]
  | cons k rest ih =>
    unfold place
    split
    · simp
    · simp [ih, or_left_comm]

theorem ascending_place {m : VerseMarker} {l : List VerseMarker}
    (hl : l.Pairwise fun a b => a.last < b.first) (h : l.any m.meets = false) :
    (place m l).Pairwise fun a b => a.last < b.first := by
  induction l with
  | nil => simp [place]
  | cons k rest ih =>
    obtain ⟨hk, hrest⟩ := List.pairwise_cons.mp hl
    obtain ⟨hmk, hmr⟩ : m.meets k = false ∧ rest.any m.meets = false := by
      simpa [List.any_cons, Bool.or_eq_false_iff] using h
    have hdisj : ¬ (m.first ≤ k.last ∧ k.first ≤ m.last) := by
      simpa [VerseMarker.meets] using hmk
    have hm := m.ordered
    have hko := k.ordered
    unfold place
    split
    · rename_i hlt
      have hlast : m.last < k.first := by omega
      refine List.pairwise_cons.mpr ⟨fun b hb => ?_, hl⟩
      obtain rfl | hb := List.mem_cons.mp hb
      · exact hlast
      · have := hk b hb
        omega
    · rename_i hge
      refine List.pairwise_cons.mpr ⟨fun b hb => ?_, ih hrest hmr⟩
      obtain rfl | hb := mem_place.mp hb
      · omega
      · exact hk b hb

/-- The set with the marker's numbers; none if it has one of them already. -/
def insert? (s : VerseSet) (m : VerseMarker) : Option VerseSet :=
  if h : s.overlaps m then none
  else some ⟨place m s.spans, ascending_place s.ascending (by simpa [overlaps_eq_any] using h)⟩

/-- Offers a marker: whether the set takes it, and the set afterwards. -/
def offer (s : VerseSet) (m : VerseMarker) : Bool × VerseSet :=
  match s.insert? m with
  | some t => (true, t)
  | none => (false, s)

instance : Membership Nat VerseSet where
  mem s n := ∃ m ∈ s.spans, n ∈ m

theorem mem_iff {s : VerseSet} {n : Nat} : n ∈ s ↔ ∃ m ∈ s.spans, n ∈ m :=
  Iff.rfl

@[simp] theorem not_mem_empty {n : Nat} : ¬ n ∈ (∅ : VerseSet) := by
  rintro ⟨m, hm, -⟩
  exact List.not_mem_nil hm

theorem overlaps_iff {s : VerseSet} {m : VerseMarker} :
    s.overlaps m = true ↔ ∃ n, n ∈ m ∧ n ∈ s := by
  simp only [overlaps_eq_any, List.any_eq_true, VerseMarker.meets_iff, mem_iff]
  constructor
  · rintro ⟨k, hk, n, hn, hnk⟩
    exact ⟨n, hn, k, hk, hnk⟩
  · rintro ⟨n, hn, k, hk, hnk⟩
    exact ⟨k, hk, n, hn, hnk⟩

theorem contains_iff {s : VerseSet} {n : Nat} : s.contains n = true ↔ n ∈ s := by
  rw [contains, overlaps_iff]
  constructor
  · rintro ⟨k, ⟨hlo, hhi⟩, hk⟩
    obtain rfl : k = n := Nat.le_antisymm hhi hlo
    exact hk
  · intro h
    exact ⟨n, ⟨Nat.le_refl n, Nat.le_refl n⟩, h⟩

theorem insert?_eq_none_iff {s : VerseSet} {m : VerseMarker} :
    s.insert? m = none ↔ s.overlaps m = true := by
  unfold insert?
  split <;> simp_all

theorem spans_of_insert? {s t : VerseSet} {m : VerseMarker} (h : s.insert? m = some t) :
    t.spans = place m s.spans := by
  unfold insert? at h
  split at h
  · cases h
  · cases h
    rfl

theorem mem_of_insert? {s t : VerseSet} {m : VerseMarker} (h : s.insert? m = some t) (n : Nat) :
    n ∈ t ↔ n ∈ m ∨ n ∈ s := by
  simp only [mem_iff, spans_of_insert? h, mem_place]
  constructor
  · rintro ⟨k, rfl | hk, hn⟩
    · exact .inl hn
    · exact .inr ⟨k, hk, hn⟩
  · rintro (hn | ⟨k, hk, hn⟩)
    · exact ⟨m, .inl rfl, hn⟩
    · exact ⟨k, .inr hk, hn⟩

end VerseSet

end Passage
