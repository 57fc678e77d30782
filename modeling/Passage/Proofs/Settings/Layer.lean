import Mathlib.Data.List.Basic
import Passage.Settings.Layer

/-! What stands under a key once a layer lies over others. A value that is no table takes
the place of the one below as a whole, so the last one in a layer is what counts; a path puts
something under its first key and leaves every other key alone. -/

namespace Passage.Layer

/-- The last value that a function finds along a list. -/
def lastSome? {α β : Type} (f : α → Option β) (l : List α) : Option β :=
  (l.filterMap f).getLast?

section LastSome
variable {α β : Type} {f : α → Option β}

@[simp] theorem lastSome?_nil : lastSome? f [] = none := rfl

theorem lastSome?_append {l m : List α} :
    lastSome? f (l ++ m) = (lastSome? f m).or (lastSome? f l) := by
  simp only [lastSome?, List.filterMap_append, List.getLast?_append]

theorem lastSome?_singleton {a : α} : lastSome? f [a] = f a := by
  cases h : f a <;> simp [lastSome?, h]

theorem lastSome?_cons {a : α} {l : List α} :
    lastSome? f (a :: l) = (lastSome? f l).or (f a) := by
  rw [← List.singleton_append, lastSome?_append, lastSome?_singleton]

theorem lastSome?_filterMap {γ : Type} {g : γ → Option α} {l : List γ} :
    lastSome? f (l.filterMap g) = lastSome? (fun c => (g c).bind f) l := by
  simp only [lastSome?, List.filterMap_filterMap]

theorem lastSome?_eq_none {l : List α} (h : ∀ a ∈ l, f a = none) : lastSome? f l = none := by
  rw [lastSome?, List.filterMap_eq_nil_iff.2 h]
  rfl

end LastSome

/-! ## Tables over tables -/

/-- The value of an entry of that key, as keys are compared. -/
def valueOf? (key : List Char) (e : List Char × Toml) : Option Toml :=
  if lowerKey e.1 = key then some e.2 else none

/-- A value that takes the place of another as a whole: any but a table. -/
def isWhole : Toml → Bool
  | .table .. => false
  | _ => true

theorem overlay_of_isWhole {base : Option Toml} {v : Toml} (h : isWhole v = true) :
    overlay base v = v := by
  cases v <;> first | rfl | cases h

/-- What `overlayAll` leaves under a key is the last that the layer gives it, else what was
there. -/
theorem lookup?_overlayAll {es layer : Toml.Entries} {key : List Char}
    (h : ∀ e ∈ layer, lowerKey e.1 = key → isWhole e.2 = true) :
    Toml.lookup? (overlayAll es layer) key =
      (lastSome? (valueOf? key) layer).or (Toml.lookup? es key) := by
  induction layer generalizing es with
  | nil => rfl
  | cons e rest ih =>
    rw [overlayAll, ih fun e he => h e (List.mem_cons_of_mem _ he), lastSome?_cons,
      Option.or_assoc, Toml.lookup?_assign]
    by_cases hk : lowerKey e.1 = key
    · rw [if_pos hk, overlay_of_isWhole (h e List.mem_cons_self hk), valueOf?, if_pos hk]
      rfl
    · rw [if_neg hk, valueOf?, if_neg hk]
      rfl

theorem entriesOf_overlay_table {base : Option Toml} {o : TableOrigin} {es : Toml.Entries} :
    entriesOf (some (overlay base (.table o es))) = overlayAll (entriesOf base) es := by
  cases es with
  | nil =>
    cases base with
    | none => rfl
    | some v => rfl
  | cons e es => rfl

/-! ## Paths -/

/-- Whether a path counts the places of arrays from their start. -/
def isForward (path : List Step) : Bool :=
  path.all fun
    | .key _ => true
    | .item index => 0 ≤ index

theorem isForward_tail {s : Step} {path : List Step} (h : isForward (s :: path) = true) :
    isForward path = true :=
  (Bool.and_eq_true_iff.1 h).2

/-- A path that counts from the start ends somewhere: tables and arrays are made on the way
where there are none. -/
theorem exists_put? {path : List Step} (h : isForward path = true) (base : Option Toml)
    (v : Toml) : ∃ t, put? base v path = some t := by
  fun_induction put? base v path with
  | case1 => exact ⟨_, rfl⟩
  | case2 => exact ⟨_, rfl⟩
  | case3 base name path hne es name' ih =>
    obtain ⟨t, ht⟩ := ih (isForward_tail h)
    rw [ht]
    exact ⟨_, rfl⟩
  | case4 base index path items ih =>
    have hindex : 0 ≤ index := of_decide_eq_true (Bool.and_eq_true_iff.1 h).1
    have hplace : placeOf? items.length index = some index.toNat := if_pos hindex
    rw [hplace]
    obtain ⟨t, ht⟩ := ih index.toNat (isForward_tail h)
    exact ⟨_, by simp only [Option.bind_eq_bind, Option.bind_some, ht]; rfl⟩

/-- At the end of a path of one key, what is put there goes into what was under the key. -/
theorem lookup?_put?_key {base : Option Toml} {v t : Toml} {name : List Char}
    (h : put? base v [.key name] = some t) (key : List Char) :
    Toml.lookup? (entriesOf (some t)) key =
      if lowerKey name = key then some (overlay (Toml.lookup? (entriesOf base) key) v)
      else Toml.lookup? (entriesOf base) key := by
  cases h
  rw [entriesOf_overlay_table, overlayAll, overlayAll, Toml.lookup?_assign]
  split
  · rename_i hk
    rw [hk]
  · rfl

/-- A longer path goes on from what was under its first key. -/
theorem put?_key_cons {base : Option Toml} {v t : Toml} {name : List Char} {path : List Step}
    (hpath : path ≠ []) (h : put? base v (.key name :: path) = some t) :
    ∃ w, put? (Toml.lookup? (entriesOf base) (lowerKey name)) v path = some w ∧
      ∀ key, Toml.lookup? (entriesOf (some t)) key =
        if lowerKey name = key then some w else Toml.lookup? (entriesOf base) key := by
  rw [put?] at h
  · obtain ⟨w, hw, ht⟩ := Option.bind_eq_some_iff.1 h
    cases ht
    exact ⟨w, hw, fun key => Toml.lookup?_assign⟩
  · exact hpath

/-- A path leaves every key but its first alone. -/
theorem lookup?_put?_of_ne {base : Option Toml} {v t : Toml} {name : List Char}
    {path : List Step} (h : put? base v (.key name :: path) = some t) {key : List Char}
    (hkey : lowerKey name ≠ key) :
    Toml.lookup? (entriesOf (some t)) key = Toml.lookup? (entriesOf base) key := by
  cases path with
  | nil => rw [lookup?_put?_key h, if_neg hkey]
  | cons s path =>
    obtain ⟨w, -, hw⟩ := put?_key_cons (List.cons_ne_nil _ _) h
    rw [hw, if_neg hkey]

end Passage.Layer
