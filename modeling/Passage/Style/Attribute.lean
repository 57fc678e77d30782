/-! What a stretch of text can carry: emphasis, alignment, or a region that a reader can
tap. Attributes are ordered by rank (emphasis, alignment, verse regions, note
regions) and then by payload; rank and payload determine the attribute, so the
order is total. -/

namespace Passage

/-- What a tapped region refers to. -/
inductive RegionKind
  | verse
  | note
deriving DecidableEq, Repr

/-- A tap target and the text handed to its handler. -/
structure Region where
  kind : RegionKind
  payload : String
deriving DecidableEq, Repr

/-- One property of a stretch of text. `alignOpposite` is the trailing edge. -/
inductive Attribute
  | bold
  | italic
  | normal
  | alignCenter
  | alignOpposite
  | clickable (region : Region)
deriving DecidableEq, Repr

namespace Attribute

/-- The place of an attribute's family in the order. -/
def rank : Attribute → Nat
  | bold => 0
  | italic => 1
  | normal => 2
  | alignCenter => 3
  | alignOpposite => 4
  | clickable ⟨.verse, _⟩ => 5
  | clickable ⟨.note, _⟩ => 6

/-- The payload of a tap target; empty for the others. -/
def payload : Attribute → String
  | clickable region => region.payload
  | _ => ""

def region? : Attribute → Option Region
  | clickable region => some region
  | _ => none

instance : LT Attribute where
  lt a b := a.rank < b.rank ∨ a.rank = b.rank ∧ a.payload < b.payload

instance (a b : Attribute) : Decidable (a < b) :=
  inferInstanceAs (Decidable (_ ∨ _))

theorem lt_iff {a b : Attribute} :
    a < b ↔ a.rank < b.rank ∨ a.rank = b.rank ∧ a.payload < b.payload :=
  Iff.rfl

theorem eq_of_rank_payload {a b : Attribute} (hr : a.rank = b.rank)
    (hp : a.payload = b.payload) : a = b := by
  rcases a with _ | _ | _ | _ | _ | ⟨_ | _, _⟩ <;>
    rcases b with _ | _ | _ | _ | _ | ⟨_ | _, _⟩ <;> simp_all [rank, payload]

theorem lt_irrefl (a : Attribute) : ¬ a < a := by
  simp [lt_iff]

theorem lt_trans {a b c : Attribute} (hab : a < b) (hbc : b < c) : a < c := by
  rw [lt_iff] at *
  rcases hab with h | ⟨h, hp⟩ <;> rcases hbc with k | ⟨k, kp⟩
  · exact .inl (Nat.lt_trans h k)
  · exact .inl (k ▸ h)
  · exact .inl (h ▸ k)
  · exact .inr ⟨h.trans k, String.lt_trans hp kp⟩

theorem lt_of_not_lt_of_ne {a b : Attribute} (hab : ¬ a < b) (hne : a ≠ b) : b < a := by
  simp only [lt_iff, not_or, not_and] at *
  rcases Nat.lt_trichotomy a.rank b.rank with h | h | h
  · exact absurd h hab.1
  · have hp : b.payload ≤ a.payload := String.not_lt.1 (hab.2 h)
    refine .inr ⟨h.symm, ?_⟩
    rcases Decidable.em (b.payload < a.payload) with hlt | hlt
    · exact hlt
    · exact absurd (eq_of_rank_payload h (String.le_antisymm (String.not_lt.1 hlt) hp)) hne
  · exact .inl h

end Attribute

end Passage
