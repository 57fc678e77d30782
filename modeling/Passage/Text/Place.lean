import Passage.Text.Utf8

/-! Places of characters. Each character of a text takes a span of bytes, and the spans follow one
another. A byte offset is clear of a text if it lies in no character: between two characters, at
either end, or past the end. A text is cut at exactly the clear offsets up to its length. -/

namespace Passage.Text

/-- The characters with the bytes that each takes, the first one starting at `offset`. -/
def placedFrom (offset : Nat) : List Char → List (Span × Char)
  | [] => []
  | c :: cs => (⟨offset, offset + c.utf8Size⟩, c) :: placedFrom (offset + c.utf8Size) cs

/-- The offset lies inside none of the characters that start at `offset`. -/
def ClearFrom (offset n : Nat) (cs : List Char) : Prop :=
  ∀ p ∈ placedFrom offset cs, n ≤ p.1.start ∨ p.1.stop ≤ n

/-- The offset is where a first part of the text ends. -/
def Boundary (n : Nat) (cs : List Char) : Prop :=
  ∃ front back, cs = front ++ back ∧ byteLength front = n

/-- The offset is a boundary of the text or lies past its end (`clear_iff`). -/
def Clear (n : Nat) (cs : List Char) : Prop :=
  ClearFrom 0 n cs

instance (offset n : Nat) (cs : List Char) : Decidable (ClearFrom offset n cs) :=
  inferInstanceAs (Decidable (∀ p ∈ placedFrom offset cs, _))

instance (n : Nat) (cs : List Char) : Decidable (Clear n cs) :=
  inferInstanceAs (Decidable (ClearFrom 0 n cs))

/-- The text of a span of bytes; refused where that has to cut inside a character, and where the
span ends past the text. -/
def sliceBytes? (s : Span) (cs : List Char) : Option (List Char) := do
  takeBytes? (s.stop - s.start) (← dropBytes? s.start cs)

theorem placedFrom_append (offset : Nat) (cs ds : List Char) :
    placedFrom offset (cs ++ ds) = placedFrom offset cs ++ placedFrom (offset + byteLength cs) ds := by
  induction cs generalizing offset with
  | nil => rfl
  | cons c cs ih => rw [List.cons_append, placedFrom, placedFrom, ih, byteLength_cons,
      Nat.add_assoc, List.cons_append]

theorem map_snd_placedFrom (offset : Nat) (cs : List Char) :
    (placedFrom offset cs).map Prod.snd = cs := by
  induction cs generalizing offset with
  | nil => rfl
  | cons c cs ih => rw [placedFrom, List.map_cons, ih]

/-- A character takes a byte at least, and its bytes are among those of the text. -/
theorem bounds_of_mem_placedFrom {offset : Nat} {cs : List Char} {p : Span × Char}
    (h : p ∈ placedFrom offset cs) :
    offset ≤ p.1.start ∧ p.1.start < p.1.stop ∧ p.1.stop ≤ offset + byteLength cs := by
  induction cs generalizing offset with
  | nil => cases h
  | cons c cs ih =>
    have hc := Char.utf8Size_pos c
    rw [byteLength_cons]
    rcases List.mem_cons.mp h with rfl | h
    · simp only
      omega
    · have := ih h
      omega

theorem ClearFrom.append {offset n : Nat} {cs ds : List Char} :
    ClearFrom offset n (cs ++ ds) ↔
      ClearFrom offset n cs ∧ ClearFrom (offset + byteLength cs) n ds := by
  rw [ClearFrom, placedFrom_append, List.forall_mem_append]
  rfl

/-- A text is in two parts at a clear offset. -/
theorem ClearFrom.split {offset n : Nat} {cs : List Char} (h : ClearFrom offset n cs)
    (hlo : offset ≤ n) (hhi : n ≤ offset + byteLength cs) :
    ∃ front back, cs = front ++ back ∧ offset + byteLength front = n := by
  induction cs generalizing offset with
  | nil =>
    have : byteLength [] = 0 := rfl
    exact ⟨[], [], rfl, by omega⟩
  | cons c cs ih =>
    rw [byteLength_cons] at hhi
    obtain ⟨hc, hcs⟩ := List.forall_mem_cons.mp h
    simp only at hc
    by_cases hn : n = offset
    · subst hn
      exact ⟨[], c :: cs, rfl, rfl⟩
    · obtain ⟨front, back, rfl, hlen⟩ := ih hcs (by omega) (by omega)
      refine ⟨c :: front, back, rfl, ?_⟩
      rw [byteLength_cons]
      omega

theorem Boundary.clear {n : Nat} {cs : List Char} (h : Boundary n cs) : Clear n cs := by
  obtain ⟨front, back, rfl, rfl⟩ := h
  refine ClearFrom.append.mpr ⟨fun p hp => ?_, fun p hp => ?_⟩
  · have := bounds_of_mem_placedFrom hp
    omega
  · have := bounds_of_mem_placedFrom hp
    omega

theorem clear_iff {n : Nat} {cs : List Char} :
    Clear n cs ↔ Boundary n cs ∨ byteLength cs < n := by
  constructor
  · intro h
    by_cases hn : n ≤ byteLength cs
    · obtain ⟨front, back, hcs, hlen⟩ := h.split (Nat.zero_le n) (by omega)
      exact .inl ⟨front, back, hcs, by omega⟩
    · exact .inr (Nat.lt_of_not_le hn)
  · rintro (h | h)
    · exact h.clear
    · intro p hp
      have := bounds_of_mem_placedFrom hp
      omega

theorem sliceBytes?_append (front mid back : List Char) :
    sliceBytes? ⟨byteLength front, byteLength front + byteLength mid⟩ (front ++ (mid ++ back)) =
      some mid := by
  rw [sliceBytes?, dropBytes?_byteLength_append, Nat.add_sub_cancel_left]
  exact takeBytes?_byteLength_append mid back

end Passage.Text
