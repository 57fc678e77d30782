import Mathlib.Data.List.Forall2
import Passage.Proofs.Styled.Chars

/-! Texts that are alike: the same characters, under styles that a relation of style sets relates.
Cutting, joining and respelling keep texts alike whatever the relation is; restyling does where the
relation allows it. Three relations are read off in plain words: the total one relates texts with
the same characters, the graph of a function relates a text to the restyled one, and a property of
style sets relates a text to itself. -/

namespace Passage

/-- The same characters, under styles that `r` relates. -/
def Alike (r : StyleSet → StyleSet → Prop) (cs ds : List StyledChar) : Prop :=
  List.Forall₂ (fun c d => c.1 = d.1 ∧ r c.2 d.2) cs ds

namespace Alike

variable {r : StyleSet → StyleSet → Prop} {cs ds cs' ds' : List StyledChar}

theorem map_fst_eq (h : Alike r cs ds) : cs.map Prod.fst = ds.map Prod.fst := by
  induction h with
  | nil => rfl
  | cons hc _ ih => rw [List.map_cons, List.map_cons, hc.1, ih]

theorem append (h : Alike r cs ds) (h' : Alike r cs' ds') : Alike r (cs ++ cs') (ds ++ ds') :=
  List.rel_append h h'

theorem take (n : Nat) (h : Alike r cs ds) : Alike r (cs.take n) (ds.take n) :=
  List.forall₂_take n h

theorem drop (n : Nat) (h : Alike r cs ds) : Alike r (cs.drop n) (ds.drop n) :=
  List.forall₂_drop n h

theorem restyle {f : StyleSet → StyleSet} (hf : ∀ s t, r s t → r (f s) (f t))
    (h : Alike r cs ds) :
    Alike r (cs.map fun c => (c.1, f c.2)) (ds.map fun c => (c.1, f c.2)) := by
  rw [Alike, List.forall₂_map_left_iff, List.forall₂_map_right_iff]
  exact List.Forall₂.imp (fun c d hcd => ⟨hcd.1, hf c.2 d.2 hcd.2⟩) h

/-- Characters under one style set each. -/
theorem uniform {s t : StyleSet} (h : r s t) (cs : List Char) :
    Alike r (cs.map fun c => (c, s)) (cs.map fun c => (c, t)) := by
  rw [Alike, List.forall₂_map_left_iff, List.forall₂_map_right_iff, List.forall₂_same]
  exact fun _ _ => ⟨rfl, h⟩

theorem respell (f : Char → List Char) (h : Alike r cs ds) :
    Alike r (cs.flatMap fun c => (f c.1).map fun d => (d, c.2))
      (ds.flatMap fun c => (f c.1).map fun d => (d, c.2)) := by
  induction h with
  | nil => exact .nil
  | cons hc _ ih =>
    obtain ⟨hfst, hstyles⟩ := hc
    rw [List.flatMap_cons, List.flatMap_cons, hfst]
    exact (uniform hstyles _).append ih

end Alike

variable {cs ds : List StyledChar}

/-- Texts alike under any styles have the same characters. -/
theorem alike_total_iff : Alike (fun _ _ => True) cs ds ↔ cs.map Prod.fst = ds.map Prod.fst := by
  refine ⟨Alike.map_fst_eq, fun h => ?_⟩
  rw [← List.forall₂_eq_eq_eq, List.forall₂_map_left_iff, List.forall₂_map_right_iff] at h
  exact h.imp fun _ _ hcd => ⟨hcd, trivial⟩

/-- A text alike under a function of styles is the restyled one. -/
theorem alike_graph_iff {f : StyleSet → StyleSet} :
    Alike (fun s t => t = f s) cs ds ↔ ds = cs.map fun c => (c.1, f c.2) := by
  have hpair : ∀ c d : StyledChar, (c.1 = d.1 ∧ d.2 = f c.2) ↔ (c.1, f c.2) = d := by
    intro c d
    rw [Prod.ext_iff]
    exact and_congr_right' eq_comm
  rw [Alike]
  simp only [hpair]
  rw [← List.forall₂_map_left_iff (f := fun c : StyledChar => (c.1, f c.2)) (R := Eq),
    List.forall₂_eq_eq_eq, eq_comm]

/-- A text alike to itself has the property on all its characters. -/
theorem alike_self_iff {P : StyleSet → Prop} :
    Alike (fun s _ => P s) cs cs ↔ ∀ c ∈ cs, P c.2 := by
  rw [Alike, List.forall₂_same]
  simp only [true_and]

end Passage
