/-! TOML values and the rules for defining tables. A table remembers how it came about,
because that decides what may still be added: a header may define a table that longer
headers only passed through, dotted keys may add only to tables that dotted keys made, and
an inline table is closed. Both may pass through the open table of double-bracket headers.
Every rule is one check on the way to the place where something is added. -/

namespace Passage

inductive TableOrigin
  /-- Passed through by a longer header. -/
  | passed
  /-- Made by a dotted key. -/
  | dotted
  /-- Defined by its own header, or the document itself. -/
  | defined
  /-- Written in braces. -/
  | inlined
deriving DecidableEq, Repr

/-- A TOML value. Dates and times are kept as they are written. -/
inductive Toml
  | string (cs : List Char)
  | integer (n : Int)
  | float (x : Float)
  | boolean (b : Bool)
  | moment (cs : List Char)
  | array (items : List Toml)
  | table (origin : TableOrigin) (entries : List (List Char × Toml))
  /-- Tables that double-bracket headers define one after the other; the last is open. -/
  | tables (each : List (List (List Char × Toml)))

namespace Toml

/-- The entries of a table, in order of definition. -/
abbrev Entries := List (List Char × Toml)

def lookup? (es : Entries) (key : List Char) : Option Toml :=
  (es.find? fun e => e.1 = key).map Prod.snd

/-- The entries with one put in the place of the entry of that key, or last. -/
def assign (es : Entries) (key : List Char) (v : Toml) : Entries :=
  match es with
  | [] => [(key, v)]
  | e :: rest => if e.1 = key then (key, v) :: rest else e :: assign rest key v

theorem lookup?_assign {es : Entries} {key k : List Char} {v : Toml} :
    lookup? (assign es key v) k = if key = k then some v else lookup? es k := by
  induction es with
  | nil => by_cases h : key = k <;> simp [lookup?, assign, h]
  | cons e rest ih =>
    unfold lookup? at ih ⊢
    by_cases he : e.1 = key
    · by_cases h : key = k <;> simp [assign, he, h]
    · by_cases hk : e.1 = k
      · subst hk
        have hne : ¬ key = e.1 := fun h => he h.symm
        simp [assign, he, hne]
      · simp [assign, he, hk, ih]

/-- Changes the entries at the end of a path of tables, which are made where they are
missing. `change` also learns how the last table came about. -/
def changeAt (byDots : Bool) (change : TableOrigin → Entries → Option Entries)
    (origin : TableOrigin) (es : Entries) : List (List Char) → Option Entries
  | [] => change origin es
  | key :: path =>
    match lookup? es key with
    | none => do
      let made := if byDots then TableOrigin.dotted else .passed
      return assign es key (table made (← changeAt byDots change made [] path))
    | some (table made inner) =>
      if made = .inlined || byDots && made = .defined then none
      else do
        return assign es key (table made (← changeAt byDots change made inner path))
    | some (tables each) => do
      let last ← changeAt byDots change .defined (each.getLast?.getD []) path
      return assign es key (tables (each.dropLast ++ [last]))
    | some _ => none

/-- Adds a value under a dotted key to a table. A key is defined once, and a table at the
end of the dots must be one that dots made. -/
def define (es : Entries) (path : List (List Char)) (key : List Char) (v : Toml) :
    Option Entries :=
  changeAt true (fun origin es =>
    if (lookup? es key).isSome || (!path.isEmpty && origin != .dotted) then none
    else some (assign es key v)) .defined es path

/-- Defines the table of a header; none if it is defined already. A table that headers passed
through takes its place in the order from its own header. -/
def openTable (es : Entries) (path : List (List Char)) (key : List Char) : Option Entries :=
  changeAt false (fun _ es =>
    match lookup? es key with
    | none => some (assign es key (table .defined []))
    | some (table .passed inner) => some (es.filter (·.1 ≠ key) ++ [(key, table .defined inner)])
    | some _ => none) .defined es path

def openNext (es : Entries) (path : List (List Char)) (key : List Char) : Option Entries :=
  changeAt false (fun _ es =>
    match lookup? es key with
    | none => some (assign es key (tables [[]]))
    | some (tables each) => some (assign es key (tables (each ++ [[]])))
    | some _ => none) .defined es path

end Toml

end Passage
