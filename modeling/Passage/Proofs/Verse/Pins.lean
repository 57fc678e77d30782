import Mathlib.Data.List.Forall2
import Passage.Proofs.Render.Weave
import Passage.Proofs.Style.Regions
import Passage.Proofs.Verse.Label

/-! Pinned text: characters of which the ones that carry a verse are whole labels, each under a
set with one tap target, the verse's own. Cutting such text keeps the labels whole unless both
characters at the cut are label characters (`Pinned.split`). So a pass keeps them whole if its
matches begin and end with other characters and its rule keeps those in what it is given
(`pinned_weave`). -/

namespace Passage

/-- No verse can be tapped under these styles. -/
def StyleSet.Unpinned (s : StyleSet) : Prop :=
  ∀ region ∈ s.regions, region.kind ≠ .verse

/-- Characters whose verse targets are the labels of these markers, in order. -/
inductive Pinned : List StyledChar → List VerseMarker → Prop
  | nil : Pinned [] []
  | free {c : StyledChar} {cs : List StyledChar} {ms : List VerseMarker} :
      c.2.Unpinned → Pinned cs ms → Pinned (c :: cs) ms
  | pin {m : VerseMarker} {s : StyleSet} {cs : List StyledChar} {ms : List VerseMarker} :
      s.regions = [m.region] → Pinned cs ms →
        Pinned (m.label.map (fun c => (c, s)) ++ cs) (m :: ms)

/-- A text that begins and ends with characters which are not in labels. -/
def Walled (cs : List Char) : Prop :=
  ∃ first last, cs.head? = some first ∧ cs.getLast? = some last ∧
    VerseMarker.isLabelChar first = false ∧ VerseMarker.isLabelChar last = false

theorem StyleSet.unpinned_of_regions_eq_nil {s : StyleSet} (h : s.regions = []) : s.Unpinned := by
  intro region hr
  rw [h] at hr
  cases hr

theorem VerseMarker.not_unpinned {m : VerseMarker} {s : StyleSet} (h : s.regions = [m.region]) :
    ¬ s.Unpinned := by
  intro hu
  exact hu m.region (by simp [h]) rfl

namespace Pinned

variable {a b cs : List StyledChar} {ms ns : List VerseMarker}

theorem append (h : Pinned a ms) (k : Pinned b ns) : Pinned (a ++ b) (ms ++ ns) := by
  induction h with
  | nil => exact k
  | free hc _ ih => exact .free hc ih
  | pin hs _ ih =>
    rw [List.append_assoc]
    exact .pin hs ih

theorem of_unpinned (h : ∀ c ∈ cs, c.2.Unpinned) : Pinned cs [] := by
  induction cs with
  | nil => exact .nil
  | cons c cs ih =>
    exact .free (h c List.mem_cons_self) (ih fun d hd => h d (List.mem_cons_of_mem _ hd))

theorem nil_iff : Pinned cs [] ↔ ∀ c ∈ cs, c.2.Unpinned := by
  refine ⟨fun h => ?_, of_unpinned⟩
  generalize he : ([] : List VerseMarker) = ms at h
  induction h with
  | nil => exact fun c hc => absurd hc List.not_mem_nil
  | free hc _ ih => exact List.forall_mem_cons.mpr ⟨hc, ih he⟩
  | pin => cases he

theorem plain (cs : List Char) : Pinned (StyledText.plain cs).chars [] := by
  refine of_unpinned fun c hc => ?_
  rw [StyledText.chars_plain] at hc
  obtain ⟨d, -, rfl⟩ := List.mem_map.mp hc
  exact StyleSet.unpinned_of_regions_eq_nil rfl

theorem label {m : VerseMarker} {s : StyleSet} (h : s.regions = [m.region]) :
    Pinned (m.label.map fun c => (c, s)) [m] := by
  have := Pinned.pin h .nil
  rwa [List.append_nil] at this

/-- A cut keeps labels whole unless label characters stand on both sides of it. -/
theorem split (h : Pinned (a ++ b) ms)
    (hw : ∀ c ∈ a.getLast?, ∀ d ∈ b.head?, VerseMarker.isLabelChar c.1 = true →
      VerseMarker.isLabelChar d.1 = false) :
    ∃ ma mb, ms = ma ++ mb ∧ Pinned a ma ∧ Pinned b mb := by
  generalize he : a ++ b = cs at h
  induction h generalizing a with
  | nil =>
    obtain ⟨rfl, rfl⟩ := List.append_eq_nil_iff.mp he
    exact ⟨[], [], rfl, .nil, .nil⟩
  | @free c cs ms hc h ih =>
    cases a with
    | nil =>
      rw [List.nil_append] at he
      exact ⟨[], ms, rfl, .nil, he ▸ .free hc h⟩
    | cons d a =>
      rw [List.cons_append] at he
      obtain ⟨rfl, ht⟩ := List.cons.inj he
      have hw' : ∀ c ∈ a.getLast?, ∀ d ∈ b.head?, VerseMarker.isLabelChar c.1 = true →
          VerseMarker.isLabelChar d.1 = false := by
        intro c hc
        exact hw c (by rw [List.getLast?_cons, Option.mem_def.mp hc]; rfl)
      obtain ⟨ma, mb, rfl, ha, hb⟩ := ih hw' ht
      exact ⟨ma, mb, rfl, .free hc ha, hb⟩
  | @pin m s cs ms hs h ih =>
    rcases List.append_eq_append_iff.mp he with ⟨x, hx, rfl⟩ | ⟨x, rfl, rfl⟩
    · -- the cut is inside the label or at one of its ends
      cases a with
      | nil =>
        rw [List.nil_append] at hx
        exact ⟨[], m :: ms, rfl, .nil, hx ▸ .pin hs h⟩
      | cons c a =>
        cases x with
        | nil =>
          rw [List.append_nil] at hx
          exact ⟨[m], ms, rfl, hx ▸ .label hs, h⟩
        | cons d x =>
          obtain ⟨e, he⟩ := Option.isSome_iff_exists.mp
            (List.getLast?_isSome.mpr (List.cons_ne_nil c a))
          have inLabel {f : StyledChar} (hf : f ∈ (c :: a) ++ d :: x) :
              VerseMarker.isLabelChar f.1 = true := by
            rw [← hx] at hf
            obtain ⟨g, hg, rfl⟩ := List.mem_map.mp hf
            exact VerseMarker.isLabelChar_of_mem_label hg
          have h1 := inLabel (List.mem_append_left _ (List.mem_of_getLast? he))
          have h2 := inLabel (f := d) (by simp)
          rw [hw e he d (by simp) h1] at h2
          cases h2
    · have hw' : ∀ c ∈ x.getLast?, ∀ d ∈ b.head?, VerseMarker.isLabelChar c.1 = true →
          VerseMarker.isLabelChar d.1 = false := by
        intro c hc
        exact hw c (by rw [List.getLast?_append, Option.mem_def.mp hc]; rfl)
      obtain ⟨ma, mb, rfl, ha, hb⟩ := ih hw' rfl
      exact ⟨m :: ma, mb, rfl, .pin hs ha, hb⟩

/-- Without label characters there are no labels. -/
theorem eq_nil_of_forall (h : Pinned cs ms)
    (hc : ∀ c ∈ cs, VerseMarker.isLabelChar c.1 = false) : ms = [] := by
  induction h with
  | nil => rfl
  | free _ _ ih => exact ih fun c hmem => hc c (List.mem_cons_of_mem _ hmem)
  | @pin m s _ _ _ _ _ =>
    obtain ⟨d, l, hl⟩ := List.exists_cons_of_ne_nil m.label_ne_nil
    have hlabel := VerseMarker.isLabelChar_of_mem_label (hl ▸ List.mem_cons_self : d ∈ m.label)
    have hfree := hc (d, s) (by simp [hl])
    rw [hlabel] at hfree
    cases hfree

/-- New styles that leave the tap targets as they are keep the labels. -/
theorem restyle {f : StyleSet → StyleSet} (hf : ∀ s, (f s).regions = s.regions)
    (h : Pinned cs ms) : Pinned (cs.map fun c => (c.1, f c.2)) ms := by
  induction h with
  | nil => exact .nil
  | free hc _ ih =>
    refine .free ?_ ih
    rw [StyleSet.Unpinned, hf]
    exact hc
  | @pin m s _ _ hs _ ih =>
    have := Pinned.pin ((hf s).trans hs) ih
    simpa [Function.comp_def] using this

/-- New characters in the place of others keep the labels if label characters stay. -/
theorem respell {f : Char → List Char} (hf : ∀ c, VerseMarker.isLabelChar c = true → f c = [c])
    (h : Pinned cs ms) : Pinned (cs.flatMap fun c => (f c.1).map fun d => (d, c.2)) ms := by
  induction h with
  | nil => exact .nil
  | @free c cs ms hc _ ih =>
    have hfree : Pinned ((f c.1).map fun d => (d, c.2)) [] := by
      refine of_unpinned fun d hd => ?_
      obtain ⟨e, -, rfl⟩ := List.mem_map.mp hd
      exact hc
    exact hfree.append ih
  | @pin m s cs ms hs _ ih =>
    have hl : (m.label.map fun c => (c, s)).flatMap (fun c => (f c.1).map fun d => (d, c.2)) =
        m.label.map fun c => (c, s) := by
      have hm : ∀ c ∈ m.label, f c = [c] :=
        fun c hc => hf c (VerseMarker.isLabelChar_of_mem_label hc)
      generalize m.label = l at hm
      induction l with
      | nil => rfl
      | cons c l ih =>
        obtain ⟨hc, hl⟩ := List.forall_mem_cons.mp hm
        simp [hc, ih hl]
    rw [List.flatMap_append, hl]
    exact .pin hs ih

end Pinned

/-! ## Passes -/

/-- A text without pins: the pins of a pass are those of its rule's answers. -/
theorem pinned_weave_of_unpinned {cs : List StyledChar} (h : ∀ c ∈ cs, c.2.Unpinned)
    {l : List (Tag.Match × StyledText)} {nss : List (List VerseMarker)}
    (hl : List.Forall₂ (fun p ns => Pinned p.2.chars ns) l nss) (offset : Nat) :
    Pinned (weave cs offset l) nss.flatten := by
  induction hl generalizing offset with
  | nil => exact .of_unpinned fun c hc => h c (List.mem_of_mem_drop hc)
  | @cons p ns l nss hp _ ih =>
    have hgap : Pinned ((cs.drop offset).take (p.1.start - offset)) [] :=
      .of_unpinned fun c hc => h c (List.mem_of_mem_drop (List.mem_of_mem_take hc))
    exact (hgap.append hp).append (ih p.1.span.stop)

/-- The first match of a pass cuts no label: the labels of a text are those of the gap before it,
its own, and those after it. -/
theorem Pinned.split_match {cs : List StyledChar} {offset : Nat} {m : Tag.Match}
    {ms : List VerseMarker} (h : Pinned (cs.drop offset) ms) (hle : offset ≤ m.start)
    (hw : Walled (((cs.drop m.start).take m.extent.length).map Prod.fst)) :
    ∃ gap own rest, ms = gap ++ (own ++ rest) ∧
      Pinned ((cs.drop offset).take (m.start - offset)) gap ∧
      Pinned ((cs.drop m.start).take m.extent.length) own ∧
      Pinned (cs.drop m.span.stop) rest := by
  obtain ⟨first, last, hfirst, hlast, hf, hl⟩ := hw
  have hcut : cs.drop offset = (cs.drop offset).take (m.start - offset) ++
      ((cs.drop m.start).take m.extent.length ++ cs.drop m.span.stop) := by
    have hd : cs.drop m.span.stop = (cs.drop m.start).drop m.extent.length := by
      rw [List.drop_drop, Tag.Match.span]
    have hs : cs.drop m.start = (cs.drop offset).drop (m.start - offset) := by
      rw [List.drop_drop, Nat.add_sub_of_le hle]
    rw [hd, List.take_append_drop, hs, List.take_append_drop]
  generalize (cs.drop m.start).take m.extent.length = tag at *
  rw [List.head?_map, Option.map_eq_some_iff] at hfirst
  rw [List.getLast?_map, Option.map_eq_some_iff] at hlast
  obtain ⟨c, hc, rfl⟩ := hfirst
  obtain ⟨d, hd, rfl⟩ := hlast
  rw [hcut] at h
  obtain ⟨gap, later, rfl, hgap, hlater⟩ := h.split fun _ _ e he _ => by
    rw [List.head?_append, hc] at he
    cases he
    exact hf
  obtain ⟨own, rest, rfl, hown, hrest⟩ := hlater.split fun e he _ _ hlabel => by
    rw [hd] at he
    cases he
    rw [hl] at hlabel
    cases hlabel
  exact ⟨gap, own, rest, rfl, hgap, hown, hrest⟩

/-- A pass keeps labels whole, in order, none twice, if its matches are walled and its rule does
so with what each match holds. -/
theorem pinned_weave {cs : List StyledChar} {l : List (Tag.Match × StyledText)} {offset : Nat}
    {ms : List VerseMarker} (hm : Tag.Following offset (l.map Prod.fst))
    (hw : ∀ p ∈ l, Walled (((cs.drop p.1.start).take p.1.extent.length).map Prod.fst))
    (hp : ∀ p ∈ l, ∀ ns, Pinned ((cs.drop p.1.start).take p.1.extent.length) ns →
      ∃ ns', ns'.Sublist ns ∧ Pinned p.2.chars ns')
    (h : Pinned (cs.drop offset) ms) :
    ∃ ms', ms'.Sublist ms ∧ Pinned (weave cs offset l) ms' := by
  induction l generalizing offset ms with
  | nil => exact ⟨ms, .refl ms, h⟩
  | cons p l ih =>
    obtain ⟨hle, hm⟩ := hm
    obtain ⟨hwp, hwl⟩ := List.forall_mem_cons.mp hw
    obtain ⟨hpp, hpl⟩ := List.forall_mem_cons.mp hp
    obtain ⟨gap, own, rest, rfl, hgap, hown, hrest⟩ := h.split_match hle hwp
    obtain ⟨own', hsub, hown'⟩ := hpp own hown
    obtain ⟨rest', hsub', hrest'⟩ := ih hm hwl hpl hrest
    refine ⟨gap ++ (own' ++ rest'), (List.Sublist.refl gap).append (hsub.append hsub'), ?_⟩
    rw [weave, ← List.append_assoc]
    exact (hgap.append hown').append hrest'

/-- What a pass keeps of the labels of a text and what its rule leaves out of the matches are
together the labels that there were. -/
theorem pinned_weave_losing {cs : List StyledChar} {l : List (Tag.Match × StyledText)}
    {offset : Nat} {ms : List VerseMarker}
    {Lost : Tag.Match × StyledText → List VerseMarker → Prop}
    (hm : Tag.Following offset (l.map Prod.fst))
    (hw : ∀ p ∈ l, Walled (((cs.drop p.1.start).take p.1.extent.length).map Prod.fst))
    (hp : ∀ p ∈ l, ∀ ns, Pinned ((cs.drop p.1.start).take p.1.extent.length) ns →
      ∃ kept lost, (kept ++ lost).Perm ns ∧ Lost p lost ∧ Pinned p.2.chars kept)
    (h : Pinned (cs.drop offset) ms) :
    ∃ kept losts, (kept ++ List.flatten losts).Perm ms ∧ List.Forall₂ Lost l losts ∧
      Pinned (weave cs offset l) kept := by
  induction l generalizing offset ms with
  | nil => exact ⟨ms, [], by simp, .nil, h⟩
  | cons p l ih =>
    obtain ⟨hle, hm⟩ := hm
    obtain ⟨hwp, hwl⟩ := List.forall_mem_cons.mp hw
    obtain ⟨hpp, hpl⟩ := List.forall_mem_cons.mp hp
    obtain ⟨gap, own, rest, rfl, hgap, hown, hrest⟩ := h.split_match hle hwp
    obtain ⟨kept, lost, hperm, hlost, hkept⟩ := hpp own hown
    obtain ⟨kept', losts, hperm', hlosts, hkept'⟩ := ih hm hwl hpl hrest
    refine ⟨gap ++ (kept ++ kept'), lost :: losts, ?_, .cons hlost hlosts, ?_⟩
    · have hswap : (kept ++ kept' ++ (lost ++ losts.flatten)).Perm
          (kept ++ lost ++ (kept' ++ losts.flatten)) := by
        rw [List.append_assoc, List.append_assoc]
        exact List.Perm.append_left kept (by
          rw [← List.append_assoc, ← List.append_assoc]
          exact List.perm_append_comm.append_right _)
      rw [List.flatten_cons, List.append_assoc]
      exact List.Perm.append_left gap (hswap.trans (hperm.append hperm'))
    · rw [weave, ← List.append_assoc]
      exact (hgap.append hkept).append hkept'

end Passage
