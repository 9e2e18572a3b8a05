/-!
# Tables

Values kept under names, in the order of the names.

Environment variables and stored objects are looked up by name and listed in
ascending order. A table is a list of pairs that `put` keeps sorted; putting a
name again replaces its value.

## Main definitions

* `Table.put`: A table with a value under a name.
* `Table.get?`: The value under a name.
* `Table.ofList`: The table of some pairs, of which the later ones count.
-/

namespace BatchRun

/-- Values under names, in ascending order of the names. -/
abbrev Table (κ α : Type) := List (κ × α)

namespace Table

variable {κ α : Type} [DecidableEq κ] [LT κ] [DecidableLT κ]

/-- A table with a value under a name. -/
def put (key : κ) (value : α) : Table κ α → Table κ α
  | [] => [(key, value)]
  | (k, v) :: rest =>
    if key = k then (key, value) :: rest
    else if key < k then (key, value) :: (k, v) :: rest
    else (k, v) :: put key value rest

/-- The value under a name. -/
def get? (key : κ) (table : Table κ α) : Option α :=
  (table.find? fun entry => entry.1 = key).map (·.2)

/-- The table of some pairs. Of several with one name the last counts. -/
def ofList (pairs : List (κ × α)) : Table κ α :=
  pairs.foldl (fun table (key, value) => table.put key value) []

/-- What was put under a name is found there. -/
theorem get?_put_self (key : κ) (value : α) (table : Table κ α) :
    get? key (put key value table) = some value := by
  induction table with
  | nil => simp [put, get?]
  | cons entry rest ih =>
    obtain ⟨k, v⟩ := entry
    simp only [put]
    split
    · simp [get?]
    · next h =>
      split
      · simp [get?]
      · simpa [get?, Ne.symm h] using ih

/-- Putting a value under one name leaves the others as they are. -/
theorem get?_put_of_ne {key other : κ} (h : other ≠ key) (value : α) (table : Table κ α) :
    get? other (put key value table) = get? other table := by
  induction table with
  | nil => simp [put, get?, Ne.symm h]
  | cons entry rest ih =>
    obtain ⟨k, v⟩ := entry
    simp only [put]
    split
    · next hk => simp [get?, ← hk, Ne.symm h]
    · split
      · simp [get?, Ne.symm h]
      · by_cases ho : k = other
        · simp [get?, ho]
        · simpa [get?, ho] using ih

end Table

end BatchRun
